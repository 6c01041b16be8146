import JavaFold.Proofs.Grammar.Scan
import JavaFold.Proofs.Grammar.Spelling

/-!
# The trees that the grammar describes

For every level of binding strength there is a class of trees, which mirrors the production of the
level. As a production is given the productions it may call on a shorter rest, a class is given the
classes of the expressions inside; `Fits` ties the knot. Two conditions go beyond the shape of a
production. An infix operator cannot have an operand on its left whose own right operand would have
taken it (`Admits`), and a member is not selected from a name, since that reads as a longer name.
-/

namespace JavaFold.Grammar

/-! ## Names and types -/

/-- An identifier. -/
inductive IsSimpleName : SourceTree → Prop where
  | intro (span : Span) (text : String) : IsSimpleName (.node span (.simpleName text))

/-- A name, nested to the left. -/
inductive IsName : SourceTree → Prop where
  | simple {name : SourceTree} (h : IsSimpleName name) : IsName name
  | qualified (span : Span) {qualifier name : SourceTree} (hq : IsName qualifier)
    (hn : IsSimpleName name) : IsName (.node span (.qualifiedName qualifier name))

/-- A type without dimensions. -/
inductive IsElementType (allowVoid : Bool) : SourceTree → Prop where
  | primitive (span : Span) {primitive : PrimitiveType}
    (h : primitive = .void → allowVoid = true) :
    IsElementType allowVoid (.node span (.primitiveType primitive))
  | named (span : Span) {name : SourceTree} (h : IsName name) :
    IsElementType allowVoid (.node span (.simpleType name))

/-- A type with any dimensions. -/
inductive IsType (allowVoid : Bool) : SourceTree → Prop where
  | element {type : SourceTree} (h : IsElementType allowVoid type) : IsType allowVoid type
  | array (span : Span) {component : SourceTree} (h : IsType allowVoid component) :
    IsType allowVoid (.node span (.arrayType component))

/-! ## Expressions -/

/-- A class of trees for every level. -/
abbrev Phrases := Level → SourceTree → Prop

variable (sub : Phrases)

/-- An operand without selectors. -/
inductive IsPrimary : SourceTree → Prop where
  | number (span : Span) (text : String) : IsPrimary (.node span (.numberLiteral text))
  | character (span : Span) (text : String) : IsPrimary (.node span (.characterLiteral text))
  | string (span : Span) (text : String) : IsPrimary (.node span (.stringLiteral text))
  | boolean (span : Span) (value : Bool) : IsPrimary (.node span (.booleanLiteral value))
  | null (span : Span) : IsPrimary (.node span .nullLiteral)
  | this (span : Span) : IsPrimary (.node span .thisExpression)
  | typeLiteral (span : Span) {type : SourceTree} (h : IsType true type) :
    IsPrimary (.node span (.typeLiteral type))
  | parenthesized (span : Span) {expression : SourceTree} (h : sub .expression expression) :
    IsPrimary (.node span (.parenthesizedExpression expression))
  | creation (span typeSpan : Span) {name : SourceTree} {arguments : List SourceTree}
    (hn : IsName name) (ha : ∀ a ∈ arguments, sub .expression a) :
    IsPrimary (.node span (.classInstanceCreation (.node typeSpan (.simpleType name)) arguments))
  | call (span : Span) {name : SourceTree} {arguments : List SourceTree} (hn : IsSimpleName name)
    (ha : ∀ a ∈ arguments, sub .expression a) :
    IsPrimary (.node span (.methodInvocation .absent name arguments))
  | name {name : SourceTree} (h : IsName name) : IsPrimary name

/-- An operand with selectors. -/
inductive IsSelected : SourceTree → Prop where
  | primary {operand : SourceTree} (h : IsPrimary sub operand) : IsSelected operand
  | field (span : Span) {operand name : SourceTree} (ho : IsSelected operand)
    (hno : ¬ IsName operand) (hn : IsSimpleName name) :
    IsSelected (.node span (.fieldAccess operand name))
  | call (span : Span) {operand name : SourceTree} {arguments : List SourceTree}
    (ho : IsSelected operand) (hn : IsSimpleName name) (ha : ∀ a ∈ arguments, sub .expression a) :
    IsSelected (.node span (.methodInvocation operand name arguments))
  | element (span : Span) {operand index : SourceTree} (ho : IsSelected operand)
    (hi : sub .expression index) : IsSelected (.node span (.arrayAccess operand index))

/-- An operand with selectors and operators after it. -/
inductive IsPostfixed : SourceTree → Prop where
  | selected {operand : SourceTree} (h : IsSelected sub operand) : IsPostfixed operand
  | operator (span : Span) (operator : PostfixOperator) {operand : SourceTree}
    (h : IsPostfixed operand) : IsPostfixed (.node span (.postfixExpression operator operand))

/-- A parenthesized type and an operand that read as a cast: the type is a primitive one, or the
operand starts with a word that cannot go on after a parenthesized expression. -/
def ReadsAsCast (type operand : SourceTree) : Prop :=
  isValueType (headKind type.words) = true ∨ startsCastOperand (headKind operand.words) = true

/-- An operand with operators and casts before it. -/
inductive IsUnary : SourceTree → Prop where
  | operator (span : Span) (operator : PrefixOperator) {operand : SourceTree}
    (h : sub .unary operand) : IsUnary (.node span (.prefixExpression operator operand))
  | cast (span : Span) {type operand : SourceTree} (ht : IsType false type)
    (ho : sub .unary operand) (hc : ReadsAsCast type operand) :
    IsUnary (.node span (.castExpression type operand))
  | postfixed {operand : SourceTree} (h : IsPostfixed sub operand) : IsUnary operand

/-- The right operand of an operand leaves operators of a precedence alone. -/
def Admits (precedence : Nat) : SourceTree → Prop
  | .node _ (.infixExpression operator ..) => precedence ≤ operator.precedence
  | _ => True

/-- Operands joined by infix operators of at least a precedence. -/
inductive IsBinary (least : Nat) : SourceTree → Prop where
  | unary {operand : SourceTree} (h : IsUnary sub operand) : IsBinary least operand
  | infixed (span : Span) (operator : InfixOperator) {left right : SourceTree}
    (hl : IsBinary least left) (hp : least ≤ operator.precedence)
    (ha : Admits operator.precedence left) (hr : sub (.binary (operator.precedence + 1)) right) :
    IsBinary least (.node span (.infixExpression operator left right))
  | instanceof (span : Span) {left type : SourceTree} (hl : IsBinary least left)
    (hp : least ≤ instanceofPrecedence) (ha : Admits instanceofPrecedence left)
    (ht : IsType false type) : IsBinary least (.node span (.instanceofExpression left type))

/-- A choice, or what binds tighter. -/
inductive IsConditional : SourceTree → Prop where
  | binary {expression : SourceTree} (h : IsBinary sub 1 expression) : IsConditional expression
  | choice (span : Span) {condition thenExpression elseExpression : SourceTree}
    (hc : IsBinary sub 1 condition) (ht : sub .expression thenExpression)
    (he : sub .conditional elseExpression) :
    IsConditional
      (.node span (.conditionalExpression condition thenExpression elseExpression))

/-- An assignment, or what binds tighter. -/
inductive IsAssignment : SourceTree → Prop where
  | conditional {expression : SourceTree} (h : IsConditional sub expression) :
    IsAssignment expression
  | assignment (span : Span) (operator : AssignmentOperator) {left right : SourceTree}
    (hl : IsConditional sub left) (hr : sub .expression right) :
    IsAssignment (.node span (.assignment operator left right))

/-- The classes of all levels, given the classes of the expressions inside. -/
def Phrases.next : Phrases
  | .expression => IsAssignment sub
  | .conditional => IsConditional sub
  | .binary least => IsBinary sub least
  | .unary => IsUnary sub

/-- The trees of a level, nested at most `depth` deep. -/
def Fits : Nat → Phrases
  | 0 => fun _ _ => False
  | depth + 1 => Phrases.next (Fits depth)

/-- An expression. -/
def IsExpression (tree : SourceTree) : Prop :=
  ∃ depth, Fits depth .expression tree

/-! ## What stands at the front -/

/-- Whether an expression can start with a class of words. -/
def startsExpression : TokenKind → Bool
  | .identifier | .number | .character | .string => true
  | .keyword .trueWord | .keyword .falseWord | .keyword .nullWord | .keyword .thisWord
  | .keyword .newWord | .keyword (.primitive _) => true
  | .punctuator .lparen => true
  | .punctuator p => p.prefixOperator?.isSome
  | _ => false

/-- Words that do not read as a type and what may follow it in a cast or a declaration. -/
def NoType (ws : List Word) : Prop :=
  ∀ rest, skipType ws = some rest →
    headKind rest ≠ .punctuator .rparen ∧ headKind rest ≠ .identifier

/-- What is known of the front of the words of an expression. -/
structure Opens (tree : SourceTree) : Prop where
  /-- The first word. -/
  head : startsExpression (headKind tree.words) = true
  /-- Unless it is a name, an expression does not read as a type, whatever follows. -/
  noType : ¬ IsName tree → ∀ rest, NoType (tree.words ++ rest)

/-- Classes of trees whose front is as it should be. -/
def Regular : Prop :=
  ∀ level tree, sub level tree → Opens tree

end JavaFold.Grammar
