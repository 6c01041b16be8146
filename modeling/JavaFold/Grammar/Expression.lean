import JavaFold.Grammar.Type

/-!
# Expressions

Expressions are read by levels of binding strength: assignments, then the conditional operator, then
the infix operators by precedence, then operators before the operand and casts, then selectors and
operators after the operand. Infix operators nest to the left.

Each production is given the productions it may call on a shorter rest of the tokens as an argument;
`level` ties the knot.
-/

namespace JavaFold.Grammar

variable {σ τ : Type} [Reading σ] [Builder σ τ]

/-- The levels of binding strength at which an expression can be asked for. -/
inductive Level where
  /-- An assignment or anything that binds tighter. -/
  | expression
  /-- A conditional expression or anything that binds tighter. -/
  | conditional
  /-- Infix operators of at least the given precedence. -/
  | binary (least : Nat)
  /-- An operand of an infix operator. -/
  | unary
  deriving DecidableEq, Repr

/-- The precedence of a type test, which is that of the relational operators. -/
def instanceofPrecedence : Nat := InfixOperator.less.precedence

/-- Arguments in parentheses. -/
def arguments (sub : Level → Parser σ τ) : Parser σ (List τ) := do
  let _ ← expectPunctuator .lparen
  let arguments ←
    if ← checkPunctuator .rparen then pure [] else commaSeparated (sub .expression)
  let _ ← expectPunctuator .rparen
  return arguments

/-- The rest `.class` of a type literal. -/
def typeLiteral (start : Span) (type : τ) : Parser σ τ := do
  let _ ← expectPunctuator .dot
  let _ ← expectKeyword .classWord
  node start (.typeLiteral type)

/-- One more step `.a` of a name in an expression, where a step that is called is left to the
selectors. -/
def qualifiedOperandStep (start : Span) (name : τ) : Parser σ (Option τ) := do
  if (← kindAt 2) == .punctuator .lparen then return none else qualifiedStep start name

/-- An operand that starts with an identifier: a name, a call or a type literal. -/
def nameOperand (sub : Level → Parser σ τ) : Parser σ τ := do
  let start ← currentSpan
  let first ← simpleName
  if ← checkPunctuator .lparen then
    let arguments ← arguments sub
    node start (.methodInvocation (Builder.absent σ) first arguments)
  else
    let name ← repeating (qualifiedOperandStep start) first
    if (← checkPunctuator .dot) && (← kindAt 1) == .keyword .classWord then
      typeLiteral start (← node start (.simpleType name))
    else if (← checkPunctuator .lbracket) && (← kindAt 1) == .punctuator .rbracket then
      typeLiteral start (← dimensions start (← node start (.simpleType name)))
    else
      return name

/-- A new object `new A(a)`. -/
def instanceCreation (sub : Level → Parser σ τ) : Parser σ τ := do
  let start := (← expectKeyword .newWord).span
  if !(← check .identifier) then unsupported .arrayCreation
  else
    let typeStart ← currentSpan
    let name ← name
    let type ← node typeStart (.simpleType name)
    if ← checkPunctuator .lbracket then unsupported .arrayCreation
    else
      let arguments ← arguments sub
      if ← checkPunctuator .lbrace then unsupported .anonymousClass
      else node start (.classInstanceCreation type arguments)

/-- Take the next token as a literal or another operand of one token. -/
def leaf (kind : NodeKind String τ) : Parser σ τ := do
  let token ← advance
  Builder.build token.span kind

/-- An operand without selectors. -/
def primary (sub : Level → Parser σ τ) : Parser σ τ := do
  let token ← current
  match token.kind with
  | .number => leaf (.numberLiteral token.text)
  | .character => leaf (.characterLiteral token.text)
  | .string => leaf (.stringLiteral token.text)
  | .keyword .trueWord => leaf (.booleanLiteral true)
  | .keyword .falseWord => leaf (.booleanLiteral false)
  | .keyword .nullWord => leaf .nullLiteral
  | .keyword .thisWord => leaf .thisExpression
  | .keyword .newWord => instanceCreation sub
  | .keyword (.primitive primitive) =>
    typeLiteral token.span (← dimensions token.span (← primitiveType primitive))
  | .punctuator .lparen =>
    let _ ← advance
    let expression ← sub .expression
    let _ ← expectPunctuator .rparen
    node token.span (.parenthesizedExpression expression)
  | .identifier => nameOperand sub
  | _ => unexpected .expression

/-- One more selector: a member, a call of a member or an element. -/
def selectorStep (sub : Level → Parser σ τ) (start : Span) (operand : τ) :
    Parser σ (Option τ) := do
  if ← eatPunctuator .dot then
    let name ← simpleName
    if ← checkPunctuator .lparen then
      let arguments ← arguments sub
      return some (← node start (.methodInvocation operand name arguments))
    else
      return some (← node start (.fieldAccess operand name))
  else if ← eatPunctuator .lbracket then
    let index ← sub .expression
    let _ ← expectPunctuator .rbracket
    return some (← node start (.arrayAccess operand index))
  else
    return none

/-- One more operator after an operand. -/
def postfixStep (start : Span) (operand : τ) : Parser σ (Option τ) := do
  match (← currentKind).punctuator?.bind Punctuator.postfixOperator? with
  | some operator =>
    let _ ← advance
    return some (← node start (.postfixExpression operator operand))
  | none => return none

/-- An operand with its selectors and the operators after it. -/
def postfixed (sub : Level → Parser σ τ) : Parser σ τ := do
  let start ← currentSpan
  let selected ← repeating (selectorStep sub start) (← primary sub)
  repeating (postfixStep start) selected

/-- An operand with the operators and casts before it. -/
def unary (sub : Level → Parser σ τ) : Parser σ τ := do
  let start ← currentSpan
  match (← currentKind).punctuator?.bind Punctuator.prefixOperator? with
  | some operator =>
    let _ ← advance
    let operand ← sub .unary
    node start (.prefixExpression operator operand)
  | none =>
    if (← checkPunctuator .lparen) && (← atCast) then
      let _ ← advance
      let type ← type false
      let _ ← expectPunctuator .rparen
      let expression ← sub .unary
      node start (.castExpression type expression)
    else
      postfixed sub

/-- One more infix operator of at least the precedence `least`, or a type test, with its right
operand. -/
def binaryStep (sub : Level → Parser σ τ) (least : Nat) (start : Span) (left : τ) :
    Parser σ (Option τ) := do
  let kind ← currentKind
  if kind == .keyword .instanceofWord && least ≤ instanceofPrecedence then
    let _ ← advance
    let right ← type false
    return some (← node start (.instanceofExpression left right))
  else
    match kind.punctuator?.bind Punctuator.infixOperator? with
    | some operator =>
      if operator.precedence < least then
        return none
      else
        let _ ← advance
        let right ← sub (.binary (operator.precedence + 1))
        return some (← node start (.infixExpression operator left right))
    | none => return none

/-- Operands joined by infix operators of at least the precedence `least`. -/
def binary (sub : Level → Parser σ τ) (least : Nat) : Parser σ τ := do
  let start ← currentSpan
  repeating (binaryStep sub least start) (← unary sub)

/-- A choice `a ? b : c`, or what binds tighter. -/
def conditional (sub : Level → Parser σ τ) : Parser σ τ := do
  let start ← currentSpan
  let condition ← binary sub 1
  if ← eatPunctuator .question then
    let thenExpression ← sub .expression
    let _ ← expectPunctuator .colon
    let elseExpression ← sub .conditional
    node start (.conditionalExpression condition thenExpression elseExpression)
  else
    return condition

/-- An assignment, which nests to the right, or what binds tighter. -/
def assignment (sub : Level → Parser σ τ) : Parser σ τ := do
  let start ← currentSpan
  let left ← conditional sub
  match (← currentKind).punctuator?.bind Punctuator.assignmentOperator? with
  | some operator =>
    let _ ← advance
    let right ← sub .expression
    node start (.assignment operator left right)
  | none => return left

/-- An expression of a level, nested at most `depth` deep. Every inner expression stands after a
token of the outer one, so a depth of the number of tokens is never exhausted. -/
def level : Nat → Level → Parser σ τ
  | 0, _ => unexpected .expression
  | depth + 1, .expression => assignment (level depth)
  | depth + 1, .conditional => conditional (level depth)
  | depth + 1, .binary least => binary (level depth) least
  | depth + 1, .unary => unary (level depth)

/-- An expression. -/
def expression : Parser σ τ :=
  bounded fun depth => level depth .expression

end JavaFold.Grammar
