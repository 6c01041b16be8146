import JavaFold.Modifiers
import JavaFold.Operator
import JavaFold.Span

/-!
# Tokens

The words, operators and separators of the language, and the tokens that a source text is cut into.
-/

namespace JavaFold

/-- Reserved words. -/
inductive Keyword where
  | packageWord | importWord | classWord | interfaceWord | extendsWord
  | modifier (modifier : Modifier)
  | primitive (primitive : PrimitiveType)
  | ifWord | elseWord | whileWord | doWord | forWord | returnWord | breakWord | continueWord
  | throwWord
  | newWord | thisWord | instanceofWord | trueWord | falseWord | nullWord
  deriving DecidableEq, Repr

namespace Keyword

/-- The spelling of a reserved word. -/
def text : Keyword → String
  | packageWord => "package"
  | importWord => "import"
  | classWord => "class"
  | interfaceWord => "interface"
  | extendsWord => "extends"
  | modifier m => m.keyword
  | primitive p => p.keyword
  | ifWord => "if"
  | elseWord => "else"
  | whileWord => "while"
  | doWord => "do"
  | forWord => "for"
  | returnWord => "return"
  | breakWord => "break"
  | continueWord => "continue"
  | throwWord => "throw"
  | newWord => "new"
  | thisWord => "this"
  | instanceofWord => "instanceof"
  | trueWord => "true"
  | falseWord => "false"
  | nullWord => "null"

/-- Every reserved word. -/
def all : List Keyword :=
  [packageWord, importWord, classWord, interfaceWord, extendsWord] ++
    Modifier.all.map modifier ++ PrimitiveType.all.map primitive ++
    [ifWord, elseWord, whileWord, doWord, forWord, returnWord, breakWord, continueWord, throwWord,
      newWord, thisWord, instanceofWord, trueWord, falseWord, nullWord]

/-- The reserved word with a given spelling. -/
def ofText? (text : String) : Option Keyword :=
  all.find? fun keyword => keyword.text == text

/-- The name of a reserved word in messages. -/
def name (keyword : Keyword) : String :=
  keyword.text.capitalize

/-- Whether a word modifies a declaration. -/
def isModifier : Keyword → Bool
  | modifier _ => true
  | _ => false

/-- Whether a word names a primitive type, `void` included. -/
def isPrimitive : Keyword → Bool
  | primitive _ => true
  | _ => false

end Keyword

/-- Operators and separators. -/
inductive Punctuator where
  | lparen | rparen | lbrace | rbrace | lbracket | rbracket
  | semicolon | comma | dot | ellipsis | question | colon
  | eq | plusEq | minusEq | starEq | slashEq | percentEq | ampEq | pipeEq | caretEq
  | shlEq | shrEq | ushrEq
  | eqEq | notEq | lt | gt | ltEq | gtEq
  | plus | minus | star | slash | percent | amp | pipe | caret | shl | shr | ushr
  | ampAmp | pipePipe | bang | tilde | plusPlus | minusMinus
  deriving DecidableEq, Repr

namespace Punctuator

/-- Every punctuator, longer spellings before shorter ones, so that the first one that a text starts
with is the longest. -/
def byLength : List Punctuator :=
  [ushrEq,
    ushr, shlEq, shrEq, ellipsis,
    shl, shr, ltEq, gtEq, eqEq, notEq, ampAmp, pipePipe, plusPlus, minusMinus, plusEq, minusEq,
    starEq, slashEq, percentEq, ampEq, pipeEq, caretEq,
    lparen, rparen, lbrace, rbrace, lbracket, rbracket, semicolon, comma, dot, question, colon, eq,
    lt, gt, plus, minus, star, slash, percent, amp, pipe, caret, bang, tilde]

/-- The spelling of a punctuator. -/
def text : Punctuator → String
  | lparen => "("
  | rparen => ")"
  | lbrace => "\x7b"
  | rbrace => "\x7d"
  | lbracket => "["
  | rbracket => "]"
  | semicolon => ";"
  | comma => ","
  | dot => "."
  | ellipsis => "..."
  | question => "?"
  | colon => ":"
  | eq => "="
  | plusEq => "+="
  | minusEq => "-="
  | starEq => "*="
  | slashEq => "/="
  | percentEq => "%="
  | ampEq => "&="
  | pipeEq => "|="
  | caretEq => "^="
  | shlEq => "<<="
  | shrEq => ">>="
  | ushrEq => ">>>="
  | eqEq => "=="
  | notEq => "!="
  | lt => "<"
  | gt => ">"
  | ltEq => "<="
  | gtEq => ">="
  | plus => "+"
  | minus => "-"
  | star => "*"
  | slash => "/"
  | percent => "%"
  | amp => "&"
  | pipe => "|"
  | caret => "^"
  | shl => "<<"
  | shr => ">>"
  | ushr => ">>>"
  | ampAmp => "&&"
  | pipePipe => "||"
  | bang => "!"
  | tilde => "~"
  | plusPlus => "++"
  | minusMinus => "--"

/-- The name of a punctuator. -/
def name : Punctuator → String
  | lparen => "LParen"
  | rparen => "RParen"
  | lbrace => "LBrace"
  | rbrace => "RBrace"
  | lbracket => "LBracket"
  | rbracket => "RBracket"
  | semicolon => "Semi"
  | comma => "Comma"
  | dot => "Dot"
  | ellipsis => "Ellipsis"
  | question => "Question"
  | colon => "Colon"
  | eq => "Eq"
  | plusEq => "PlusEq"
  | minusEq => "MinusEq"
  | starEq => "StarEq"
  | slashEq => "SlashEq"
  | percentEq => "PercentEq"
  | ampEq => "AmpEq"
  | pipeEq => "PipeEq"
  | caretEq => "CaretEq"
  | shlEq => "ShlEq"
  | shrEq => "ShrEq"
  | ushrEq => "UshrEq"
  | eqEq => "EqEq"
  | notEq => "NotEq"
  | lt => "Lt"
  | gt => "Gt"
  | ltEq => "LtEq"
  | gtEq => "GtEq"
  | plus => "Plus"
  | minus => "Minus"
  | star => "Star"
  | slash => "Slash"
  | percent => "Percent"
  | amp => "Amp"
  | pipe => "Pipe"
  | caret => "Caret"
  | shl => "Shl"
  | shr => "Shr"
  | ushr => "Ushr"
  | ampAmp => "AmpAmp"
  | pipePipe => "PipePipe"
  | bang => "Bang"
  | tilde => "Tilde"
  | plusPlus => "PlusPlus"
  | minusMinus => "MinusMinus"

/-- The infix operator that a punctuator spells. -/
def infixOperator? : Punctuator → Option InfixOperator
  | star => some .times
  | slash => some .divide
  | percent => some .remainder
  | plus => some .plus
  | minus => some .minus
  | shl => some .leftShift
  | shr => some .rightShiftSigned
  | ushr => some .rightShiftUnsigned
  | lt => some .less
  | gt => some .greater
  | ltEq => some .lessEquals
  | gtEq => some .greaterEquals
  | eqEq => some .equals
  | notEq => some .notEquals
  | amp => some .and
  | caret => some .xor
  | pipe => some .or
  | ampAmp => some .conditionalAnd
  | pipePipe => some .conditionalOr
  | _ => none

/-- The assignment operator that a punctuator spells. -/
def assignmentOperator? : Punctuator → Option AssignmentOperator
  | eq => some .assign
  | plusEq => some .plusAssign
  | minusEq => some .minusAssign
  | starEq => some .timesAssign
  | slashEq => some .divideAssign
  | percentEq => some .remainderAssign
  | ampEq => some .bitAndAssign
  | pipeEq => some .bitOrAssign
  | caretEq => some .bitXorAssign
  | shlEq => some .leftShiftAssign
  | shrEq => some .rightShiftSignedAssign
  | ushrEq => some .rightShiftUnsignedAssign
  | _ => none

/-- The operator before an operand that a punctuator spells. -/
def prefixOperator? : Punctuator → Option PrefixOperator
  | plusPlus => some .increment
  | minusMinus => some .decrement
  | plus => some .plus
  | minus => some .minus
  | tilde => some .complement
  | bang => some .not
  | _ => none

/-- The operator after an operand that a punctuator spells. -/
def postfixOperator? : Punctuator → Option PostfixOperator
  | plusPlus => some .increment
  | minusMinus => some .decrement
  | _ => none

end Punctuator

/-- The classes of tokens. -/
inductive TokenKind where
  | identifier
  | keyword (keyword : Keyword)
  | number
  | character
  | string
  | punctuator (punctuator : Punctuator)
  | endOfFile
  deriving DecidableEq, Repr

namespace TokenKind

/-- A class of tokens in messages. -/
def description : TokenKind → String
  | identifier => "identifier"
  | keyword k => "`" ++ k.text ++ "`"
  | number => "number literal"
  | character => "character literal"
  | string => "string literal"
  | punctuator p => "`" ++ p.text ++ "`"
  | endOfFile => "end of file"

/-- The punctuator of a class, if it is one. -/
def punctuator? : TokenKind → Option Punctuator
  | punctuator p => some p
  | _ => none

end TokenKind

/-- A piece of a source text that stands for one word, literal, operator or separator. -/
structure Token where
  /-- The class of the token. -/
  kind : TokenKind
  /-- The characters of the token as they stand in the source. -/
  text : String
  /-- Where the characters stand. -/
  span : Span
  deriving DecidableEq, Repr

namespace Token

/-- The token that closes a source text of the given length. -/
def endOfFile (offset : Nat) : Token :=
  ⟨.endOfFile, "", .point offset⟩

/-- A token in messages: its class and, where the class leaves it open, its text. -/
def description (token : Token) : String :=
  match token.kind with
  | .identifier | .number | .character | .string =>
    token.kind.description ++ " `" ++ token.text ++ "`"
  | kind => kind.description

end Token

end JavaFold
