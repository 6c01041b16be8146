import JavaFold.Arena.Violation
import JavaFold.Text.Quoted
import JavaFold.Token

/-!
# Sources that cannot be read

Why a source text was refused, and where. A refusal by the grammar holds the token it is about.
-/

namespace JavaFold

/-- The literals that stand between quotes. -/
inductive QuotedLiteral where
  | character | string
  deriving DecidableEq, Repr

namespace QuotedLiteral

/-- A literal in messages. -/
def text : QuotedLiteral → String
  | character => "character"
  | string => "string"

/-- The quote on either side of a literal. -/
def quote : QuotedLiteral → Char
  | character => '\''
  | string => '"'

/-- The class of the tokens that a literal gives. -/
def kind : QuotedLiteral → TokenKind
  | character => .character
  | string => .string

end QuotedLiteral

/-- What the grammar was looking for. -/
inductive Expectation where
  | punctuator (punctuator : Punctuator)
  | keyword (keyword : Keyword)
  | identifier
  | expression
  | type
  | endOfFile
  deriving DecidableEq, Repr

/-- What the grammar was looking for, in messages. -/
def Expectation.text : Expectation → String
  | punctuator p => "`" ++ p.text ++ "`"
  | keyword k => "`" ++ k.text ++ "`"
  | identifier => "identifier"
  | expression => "expression"
  | type => "type"
  | endOfFile => "end of file"

/-- Parts of the language that are recognised and refused. -/
inductive Construct where
  | arrayCreation
  | anonymousClass
  | arrayInitializer
  | localTypeDeclaration
  | enhancedFor
  | implementsClause
  | throwsClause
  | initializerBlock
  deriving DecidableEq, Repr

/-- A refused part of the language in messages. -/
def Construct.text : Construct → String
  | arrayCreation => "array creation"
  | anonymousClass => "anonymous class"
  | arrayInitializer => "array initializer"
  | localTypeDeclaration => "local type declaration"
  | enhancedFor => "enhanced for loop"
  | implementsClause => "implements clause"
  | throwsClause => "throws clause"
  | initializerBlock => "initializer block"

/-- Why a source text was refused. -/
inductive ParseError where
  /-- No token starts with the character. -/
  | unexpectedCharacter (char : Char) (span : Span)
  /-- A block comment is not closed. -/
  | unterminatedComment (span : Span)
  /-- A quoted literal is not closed on its line. -/
  | unterminatedLiteral (literal : QuotedLiteral) (span : Span)
  /-- The grammar has no place for the token. -/
  | unexpectedToken (expected : Expectation) (found : Token)
  /-- The construct that starts at the token is not covered. -/
  | unsupported (construct : Construct) (token : Token)
  /-- The source is too long for its offsets to be stored. -/
  | sourceTooLarge (bytes : Nat)
  /-- The nodes could not be put together. -/
  | tree (violation : Violation)
  deriving DecidableEq, Repr

namespace ParseError

/-- The wording of a refusal. -/
def message : ParseError → String
  | unexpectedCharacter char _ => "unexpected character " ++ Text.quoteChar char
  | unterminatedComment _ => "unterminated block comment"
  | unterminatedLiteral literal _ => s!"unterminated {literal.text} literal"
  | unexpectedToken expected found => s!"expected {expected.text}, found {found.description}"
  | unsupported construct _ => s!"unsupported construct: {construct.text}"
  | sourceTooLarge bytes => s!"source too large ({bytes} bytes)"
  | tree violation => violation.message

/-- The part of the source that a refusal is about. -/
def span : ParseError → Span
  | unexpectedCharacter _ span => span
  | unterminatedComment span => span
  | unterminatedLiteral _ span => span
  | unexpectedToken _ found => found.span
  | unsupported _ token => token.span
  | sourceTooLarge _ => .nowhere
  | tree _ => .nowhere

/-- Where in the source a refusal points. -/
def position (error : ParseError) (source : String) : Position :=
  error.span.position source

end ParseError

end JavaFold
