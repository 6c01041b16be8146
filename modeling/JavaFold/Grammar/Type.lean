import JavaFold.Grammar.Cursor

/-!
# Names, modifiers and types

Next to the production of types stands a scan that only says whether a type is there and passes it.
The lookahead that tells a cast from a parenthesis and a declaration from an expression is made of
it. It makes no nodes, and goes back to where it started.
-/

namespace JavaFold.Grammar

variable {σ τ : Type} [Reading σ]

section Productions

variable [Builder σ τ]

/-- An identifier. -/
def simpleName : Parser σ τ := do
  let token ← expectIdentifier
  Builder.build token.span (.simpleName token.text)

/-- One more step `.a` of a qualified name. -/
def qualifiedStep (start : Span) (name : τ) : Parser σ (Option τ) := do
  if (← checkPunctuator .dot) && (← kindAt 1) == .identifier then
    let _ ← advance
    let last ← simpleName
    return some (← node start (.qualifiedName name last))
  else
    return none

/-- A name `a.b.c`, nested to the left. -/
def name : Parser σ τ := do
  let start ← currentSpan
  repeating (qualifiedStep start) (← simpleName)

/-- One more modifier of a run. -/
def modifierStep (modifiers : Modifiers) : Parser σ (Option Modifiers) := do
  match ← currentKind with
  | .keyword (.modifier modifier) =>
    let _ ← advance
    return some (modifiers.insert modifier)
  | _ => return none

/-- A run of modifiers, possibly empty. -/
def modifiers : Parser σ Modifiers :=
  repeating modifierStep .empty

/-- One more dimension `[]` of an array type. -/
def dimensionStep (start : Span) (component : τ) : Parser σ (Option τ) := do
  if (← checkPunctuator .lbracket) && (← kindAt 1) == .punctuator .rbracket then
    let _ ← advance
    let _ ← advance
    return some (← node start (.arrayType component))
  else
    return none

/-- A type with the dimensions that follow it. -/
def dimensions (start : Span) (component : τ) : Parser σ τ :=
  repeating (dimensionStep start) component

/-- A primitive type, whose keyword is the next token. -/
def primitiveType (primitive : PrimitiveType) : Parser σ τ := do
  let token ← advance
  Builder.build token.span (.primitiveType primitive)

/-- A primitive type or a name, and any dimensions. The type `void` is refused unless it is
allowed. -/
def type (allowVoid : Bool) : Parser σ τ := do
  let start ← currentSpan
  match ← currentKind with
  | .keyword (.primitive primitive) =>
    if primitive = .void && !allowVoid then unexpected .type
    else dimensions start (← primitiveType primitive)
  | .identifier =>
    let name ← name
    dimensions start (← node start (.simpleType name))
  | _ => unexpected .type

end Productions

/-- Pass one more step `.a` of a name. -/
def scanQualifier (_ : Unit) : Parser σ (Option Unit) := do
  if (← checkPunctuator .dot) && (← kindAt 1) == .identifier then
    let _ ← advance
    let _ ← advance
    return some ()
  else
    return none

/-- Pass one more dimension `[]`. -/
def scanDimension (_ : Unit) : Parser σ (Option Unit) := do
  if (← checkPunctuator .lbracket) && (← kindAt 1) == .punctuator .rbracket then
    let _ ← advance
    let _ ← advance
    return some ()
  else
    return none

/-- Pass a primitive type other than `void` or a name, if there is one. -/
def scanElement : Parser σ Bool := do
  match ← currentKind with
  | .keyword (.primitive primitive) =>
    if primitive = .void then return false
    else
      let _ ← advance
      return true
  | .identifier =>
    let _ ← advance
    repeating scanQualifier ()
    return true
  | _ => return false

/-- Pass a type other than `void`, if there is one. -/
def scanType : Parser σ Bool := do
  if ← scanElement then
    repeating scanDimension ()
    return true
  else
    return false

/-- Whether the next tokens declare a local variable: modifiers, a type and an identifier. -/
def atDeclaration : Parser σ Bool :=
  lookingAhead do
    let _ ← modifiers
    if ← scanType then check .identifier else return false

/-- Whether a class of tokens is a primitive type other than `void`. -/
def isValueType : TokenKind → Bool
  | .keyword (.primitive primitive) => primitive != .void
  | _ => false

/-- Whether an operand of a cast to a named type can start with a class of tokens. A sign cannot: it
reads as an operator between two operands. -/
def startsCastOperand : TokenKind → Bool
  | .identifier | .number | .character | .string => true
  | .keyword .thisWord | .keyword .newWord | .keyword .trueWord | .keyword .falseWord
  | .keyword .nullWord => true
  | .punctuator .lparen | .punctuator .bang | .punctuator .tilde => true
  | _ => false

/-- Whether the opening parenthesis that is the next token starts a cast: a type and a closing
parenthesis follow, and an operand after a type that may be a name. -/
def atCast : Parser σ Bool :=
  lookingAhead do
    let _ ← advance
    let primitive := isValueType (← currentKind)
    if ← scanType then
      if ← eatPunctuator .rparen then
        return primitive || startsCastOperand (← currentKind)
      else
        return false
    else
      return false

end JavaFold.Grammar
