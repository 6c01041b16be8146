import JavaFold.Layout
import JavaFold.Proofs.Grammar.Words
import JavaFold.Proofs.Tree.Shape

/-!
# The words of a tree

The words that a tree is written with, in order and without the blanks between them. Every operator
is spelled by one punctuator, and a set of modifiers is read back from its words.
-/

namespace JavaFold

/-! ## Operators -/

/-- The punctuator that spells an infix operator. -/
def InfixOperator.punctuator : InfixOperator → Punctuator
  | times => .star
  | divide => .slash
  | remainder => .percent
  | plus => .plus
  | minus => .minus
  | leftShift => .shl
  | rightShiftSigned => .shr
  | rightShiftUnsigned => .ushr
  | less => .lt
  | greater => .gt
  | lessEquals => .ltEq
  | greaterEquals => .gtEq
  | equals => .eqEq
  | notEquals => .notEq
  | and => .amp
  | xor => .caret
  | or => .pipe
  | conditionalAnd => .ampAmp
  | conditionalOr => .pipePipe

/-- The punctuator that spells an assignment operator. -/
def AssignmentOperator.punctuator : AssignmentOperator → Punctuator
  | assign => .eq
  | plusAssign => .plusEq
  | minusAssign => .minusEq
  | timesAssign => .starEq
  | divideAssign => .slashEq
  | remainderAssign => .percentEq
  | bitAndAssign => .ampEq
  | bitOrAssign => .pipeEq
  | bitXorAssign => .caretEq
  | leftShiftAssign => .shlEq
  | rightShiftSignedAssign => .shrEq
  | rightShiftUnsignedAssign => .ushrEq

/-- The punctuator that spells an operator before its operand. -/
def PrefixOperator.punctuator : PrefixOperator → Punctuator
  | increment => .plusPlus
  | decrement => .minusMinus
  | plus => .plus
  | minus => .minus
  | complement => .tilde
  | not => .bang

/-- The punctuator that spells an operator after its operand. -/
def PostfixOperator.punctuator : PostfixOperator → Punctuator
  | increment => .plusPlus
  | decrement => .minusMinus

namespace Punctuator

variable {p : Punctuator}

/-- A punctuator is read as an infix operator only by way of that operator's own spelling. -/
theorem infixOperator?_eq_some {operator : InfixOperator} :
    p.infixOperator? = some operator ↔ p = operator.punctuator := by
  cases p <;> cases operator <;> simp [infixOperator?, InfixOperator.punctuator]

/-- A punctuator is read as an assignment operator only by way of that operator's own spelling. -/
theorem assignmentOperator?_eq_some {operator : AssignmentOperator} :
    p.assignmentOperator? = some operator ↔ p = operator.punctuator := by
  cases p <;> cases operator <;> simp [assignmentOperator?, AssignmentOperator.punctuator]

/-- A punctuator is read as a prefix operator only by way of that operator's own spelling. -/
theorem prefixOperator?_eq_some {operator : PrefixOperator} :
    p.prefixOperator? = some operator ↔ p = operator.punctuator := by
  cases p <;> cases operator <;> simp [prefixOperator?, PrefixOperator.punctuator]

/-- A punctuator is read as a postfix operator only by way of that operator's own spelling. -/
theorem postfixOperator?_eq_some {operator : PostfixOperator} :
    p.postfixOperator? = some operator ↔ p = operator.punctuator := by
  cases p <;> cases operator <;> simp [postfixOperator?, PostfixOperator.punctuator]

end Punctuator

/-- A token passes a test of punctuators only if it is a punctuator that passes. -/
theorem TokenKind.punctuator?_bind_eq_some {α : Type} {f : Punctuator → Option α} {kind : TokenKind}
    {a : α} :
    kind.punctuator?.bind f = some a ↔ ∃ p, kind = .punctuator p ∧ f p = some a := by
  cases kind <;> simp [TokenKind.punctuator?]

/-- No two infix operators are spelled alike, so reading one back recovers it. -/
theorem InfixOperator.punctuator_inj {a b : InfixOperator} (h : a.punctuator = b.punctuator) :
    a = b := by
  have ha := Punctuator.infixOperator?_eq_some.2 h
  rw [Punctuator.infixOperator?_eq_some.2 rfl] at ha
  exact Option.some.inj ha

/-- The lexer's text of an infix operator is the one the printer writes. -/
theorem InfixOperator.text_punctuator (operator : InfixOperator) :
    operator.punctuator.text = operator.symbol := by
  cases operator <;> rfl

/-- The lexer's text of an assignment operator is the one the printer writes. -/
theorem AssignmentOperator.text_punctuator (operator : AssignmentOperator) :
    operator.punctuator.text = operator.symbol := by
  cases operator <;> rfl

/-- The lexer's text of a prefix operator is the one the printer writes. -/
theorem PrefixOperator.text_punctuator (operator : PrefixOperator) :
    operator.punctuator.text = operator.symbol := by
  cases operator <;> rfl

/-- The lexer's text of a postfix operator is the one the printer writes. -/
theorem PostfixOperator.text_punctuator (operator : PostfixOperator) :
    operator.punctuator.text = operator.symbol := by
  cases operator <;> rfl

/-! ## Modifiers -/

private theorem Modifier.mem_all (m : Modifier) : m ∈ all := by
  cases m <;> decide

private theorem Modifier.bit_lt (m : Modifier) : m.bit < 11 := by
  cases m <;> decide

private theorem Modifier.bit_inj {m n : Modifier} : m.bit = n.bit ↔ n = m := by
  cases m <;> cases n <;> decide

namespace Modifiers

/-- A modifier that is inserted is contained from then on, and nothing else changes. -/
theorem contains_insert (modifiers : Modifiers) (m n : Modifier) :
    (modifiers.insert m).contains n = (modifiers.contains n || decide (n = m)) := by
  simp only [contains, insert, single, BitVec.getLsbD_or, BitVec.getLsbD_twoPow, m.bit_lt,
    Modifier.bit_inj, decide_true, Bool.true_and]

private theorem contains_foldl_insert (ms : List Modifier) (modifiers : Modifiers) (n : Modifier) :
    (ms.foldl insert modifiers).contains n = (modifiers.contains n || decide (n ∈ ms)) := by
  induction ms generalizing modifiers with
  | nil => simp
  | cons m ms ih =>
    rw [List.foldl_cons, ih, contains_insert]
    by_cases hn : n = m <;> simp [hn]

private theorem ext_contains {a b : Modifiers} (h : ∀ m, a.contains m = b.contains m) : a = b := by
  obtain ⟨a⟩ := a
  obtain ⟨b⟩ := b
  congr 1
  apply BitVec.eq_of_getLsbD_eq
  intro i hi
  have hbit : ∀ i : Fin 11, ∃ m ∈ Modifier.all, m.bit = i := by decide
  obtain ⟨m, -, hm⟩ := hbit ⟨i, hi⟩
  have := h m
  rwa [contains, contains, hm] at this

/-- A set of modifiers is what its words add up to. -/
theorem foldl_insert_toList (modifiers : Modifiers) :
    modifiers.toList.foldl insert empty = modifiers := by
  apply ext_contains
  intro m
  have hempty : empty.contains m = false := by simp [contains, empty]
  rw [contains_foldl_insert, toList, hempty, Bool.false_or]
  cases hm : modifiers.contains m <;> simp [List.mem_filter, hm, m.mem_all]

end Modifiers

/-! ## Words -/

/-- The words of a set of modifiers. -/
def Modifiers.words (modifiers : Modifiers) : List Word :=
  modifiers.toList.map fun modifier => .keyword (.modifier modifier)

namespace Form

/-- The words of a child in its place, given its tag and its words on its own. -/
def placeWords : Form → Option Tag → List Word → List Word
  | initializer, some .variableDeclarationStatement, words => words.dropLast
  | _, _, words => words

/-- The words between two children in a row. -/
def separatorWords : Form → List Word
  | plain | parameter | fragment | initializer => [.punctuator .comma]
  | member | header | line => []

end Form

namespace Tree

variable {ι κ : Type}

mutual
/-- The words of a tree. -/
def words : Tree ι → List Word
  | .absent => []
  | .node _ (.compilationUnit package imports types) =>
    package.words ++ wordsRow .header imports ++ wordsRow .member types
  | .node _ (.packageDeclaration name) =>
    .keyword .packageWord :: name.words ++ [.punctuator .semicolon]
  | .node _ (.importDeclaration isStatic onDemand name) =>
    .keyword .importWord :: (if isStatic then [.keyword (.modifier .staticFlag)] else []) ++
      name.words ++ (if onDemand then [.punctuator .dot, .punctuator .star] else []) ++
      [.punctuator .semicolon]
  | .node _ (.typeDeclaration modifiers interface name superclass members) =>
    modifiers.words ++ (if interface then .keyword .interfaceWord else .keyword .classWord) ::
      name.words ++
      (if superclass.isPresent then .keyword .extendsWord :: superclass.words else []) ++
      .punctuator .lbrace :: wordsRow .member members ++ [.punctuator .rbrace]
  | .node _ (.fieldDeclaration modifiers type fragments) =>
    modifiers.words ++ type.words ++ wordsRow .fragment fragments ++ [.punctuator .semicolon]
  | .node _ (.methodDeclaration modifiers _ returnType name parameters body) =>
    modifiers.words ++ returnType.words ++ name.words ++
      .punctuator .lparen :: wordsRow .parameter parameters ++
      .punctuator .rparen :: (if body.isPresent then body.words else [.punctuator .semicolon])
  | .node _ (.singleVariableDeclaration modifiers varargs type name) =>
    modifiers.words ++ type.words ++ (if varargs then [.punctuator .ellipsis] else []) ++
      name.words
  | .node _ (.variableDeclarationFragment name initializer) =>
    name.words ++ (if initializer.isPresent then .punctuator .eq :: initializer.words else [])
  | .node _ (.block statements) =>
    .punctuator .lbrace :: wordsRow .line statements ++ [.punctuator .rbrace]
  | .node _ .emptyStatement => [.punctuator .semicolon]
  | .node _ (.expressionStatement expression) => expression.words ++ [.punctuator .semicolon]
  | .node _ (.variableDeclarationStatement modifiers type fragments) =>
    modifiers.words ++ type.words ++ wordsRow .fragment fragments ++ [.punctuator .semicolon]
  | .node _ (.ifStatement expression thenStatement elseStatement) =>
    .keyword .ifWord :: .punctuator .lparen :: expression.words ++
      .punctuator .rparen :: thenStatement.words ++
      (if elseStatement.isPresent then .keyword .elseWord :: elseStatement.words else [])
  | .node _ (.whileStatement expression body) =>
    .keyword .whileWord :: .punctuator .lparen :: expression.words ++
      .punctuator .rparen :: body.words
  | .node _ (.doStatement body expression) =>
    .keyword .doWord :: body.words ++
      .keyword .whileWord :: .punctuator .lparen :: expression.words ++
      [.punctuator .rparen, .punctuator .semicolon]
  | .node _ (.forStatement initializers expression updaters body) =>
    .keyword .forWord :: .punctuator .lparen :: wordsRow .initializer initializers ++
      .punctuator .semicolon :: expression.words ++
      .punctuator .semicolon :: wordsRow .plain updaters ++
      .punctuator .rparen :: body.words
  | .node _ (.returnStatement expression) =>
    .keyword .returnWord :: expression.words ++ [.punctuator .semicolon]
  | .node _ .breakStatement => [.keyword .breakWord, .punctuator .semicolon]
  | .node _ .continueStatement => [.keyword .continueWord, .punctuator .semicolon]
  | .node _ (.throwStatement expression) =>
    .keyword .throwWord :: expression.words ++ [.punctuator .semicolon]
  | .node _ (.parenthesizedExpression expression) =>
    .punctuator .lparen :: expression.words ++ [.punctuator .rparen]
  | .node _ (.infixExpression operator leftOperand rightOperand) =>
    leftOperand.words ++ .punctuator operator.punctuator :: rightOperand.words
  | .node _ (.prefixExpression operator operand) =>
    .punctuator operator.punctuator :: operand.words
  | .node _ (.postfixExpression operator operand) =>
    operand.words ++ [.punctuator operator.punctuator]
  | .node _ (.assignment operator leftHandSide rightHandSide) =>
    leftHandSide.words ++ .punctuator operator.punctuator :: rightHandSide.words
  | .node _ (.conditionalExpression expression thenExpression elseExpression) =>
    expression.words ++ .punctuator .question :: thenExpression.words ++
      .punctuator .colon :: elseExpression.words
  | .node _ (.methodInvocation expression name arguments) =>
    (if expression.isPresent then expression.words ++ [.punctuator .dot] else []) ++ name.words ++
      .punctuator .lparen :: wordsRow .plain arguments ++ [.punctuator .rparen]
  | .node _ (.fieldAccess expression name) =>
    expression.words ++ .punctuator .dot :: name.words
  | .node _ (.arrayAccess array index) =>
    array.words ++ .punctuator .lbracket :: index.words ++ [.punctuator .rbracket]
  | .node _ (.classInstanceCreation type arguments) =>
    .keyword .newWord :: type.words ++ .punctuator .lparen :: wordsRow .plain arguments ++
      [.punctuator .rparen]
  | .node _ (.castExpression type expression) =>
    .punctuator .lparen :: type.words ++ .punctuator .rparen :: expression.words
  | .node _ (.instanceofExpression leftOperand rightOperand) =>
    leftOperand.words ++ .keyword .instanceofWord :: rightOperand.words
  | .node _ .thisExpression => [.keyword .thisWord]
  | .node _ (.simpleName identifier) => [.identifier identifier]
  | .node _ (.qualifiedName qualifier name) =>
    qualifier.words ++ .punctuator .dot :: name.words
  | .node _ (.booleanLiteral value) =>
    [if value then .keyword .trueWord else .keyword .falseWord]
  | .node _ (.characterLiteral escaped) => [.character escaped]
  | .node _ .nullLiteral => [.keyword .nullWord]
  | .node _ (.stringLiteral escaped) => [.string escaped]
  | .node _ (.numberLiteral token) => [.number token]
  | .node _ (.typeLiteral type) => type.words ++ [.punctuator .dot, .keyword .classWord]
  | .node _ (.primitiveType primitive) => [.keyword (.primitive primitive)]
  | .node _ (.simpleType name) => name.words
  | .node _ (.arrayType componentType) =>
    componentType.words ++ [.punctuator .lbracket, .punctuator .rbracket]

/-- The words of trees in a row, each in its place. -/
def wordsRow (form : Form) : List (Tree ι) → List Word
  | [] => []
  | tree :: trees =>
    form.placeWords tree.tag? tree.words ++ (if trees.isEmpty then [] else form.separatorWords) ++
      wordsRow form trees
end

section

-- Lean states the equations of the two functions here, once for every proof about words.
attribute [local simp] words wordsRow Form.placeWords Form.separatorWords

/-- In a row with commas every tree but the first has a comma before it. -/
theorem wordsRow_plain_cons (tree : Tree ι) (trees : List (Tree ι)) :
    wordsRow .plain (tree :: trees) =
      tree.words ++ trees.flatMap fun t => .punctuator .comma :: t.words := by
  induction trees generalizing tree with
  | nil => simp
  | cons next trees ih =>
    rw [wordsRow, ih next]
    simp

end

/-- A tree without the places of its nodes. -/
def bare (tree : Tree ι) : SourceTree :=
  tree.mapInfo fun _ => .nowhere

end Tree

end JavaFold
