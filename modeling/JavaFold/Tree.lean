import JavaFold.Node.Slots

/-!
# Trees

A tree is a program, or a part of one, on its own: every node holds its children and the texts of
its names. What else a node carries (the source range it was read from, its handle in an arena, or
nothing) is a parameter, so that trees can be compared for what they say and not where it stands.

`Tree.fold` is the recursion that the other operations on trees are made of: it replaces every node
by a value computed from the values of its children.
-/

namespace JavaFold

/-- A tree whose nodes each carry an `ι`, or no tree where a single slot is empty. -/
inductive Tree (ι : Type) where
  /-- An empty single slot. -/
  | absent
  /-- A node and what is below it. -/
  | node (info : ι) (kind : NodeKind String (Tree ι))

namespace Tree

variable {ι κ β : Type}

/-- Whether there is a node. -/
def isPresent : Tree ι → Bool
  | .absent => false
  | .node .. => true

instance : Occupant (Tree ι) where
  isPresent := isPresent

/-- The tag of the top node. -/
def tag? : Tree ι → Option Tag
  | .absent => none
  | .node _ kind => some kind.tag

mutual
/-- Replace every node of a tree, children first, by the value that `node` computes from what the
node carries and from the values of its children. -/
def fold (absent : β) (node : ι → NodeKind String β → β) : Tree ι → β
  | .absent => absent
  | .node info kind => node info (foldKind absent node kind)

/-- A kind with every child replaced by its value. -/
def foldKind (absent : β) (node : ι → NodeKind String β → β) :
    NodeKind String (Tree ι) → NodeKind String β
  | .compilationUnit package imports types =>
    .compilationUnit (fold absent node package) (foldList absent node imports)
      (foldList absent node types)
  | .packageDeclaration name => .packageDeclaration (fold absent node name)
  | .importDeclaration isStatic onDemand name =>
    .importDeclaration isStatic onDemand (fold absent node name)
  | .typeDeclaration modifiers interface name superclass bodyDeclarations =>
    .typeDeclaration modifiers interface (fold absent node name) (fold absent node superclass)
      (foldList absent node bodyDeclarations)
  | .fieldDeclaration modifiers type fragments =>
    .fieldDeclaration modifiers (fold absent node type) (foldList absent node fragments)
  | .methodDeclaration modifiers constructor returnType name parameters body =>
    .methodDeclaration modifiers constructor (fold absent node returnType) (fold absent node name)
      (foldList absent node parameters) (fold absent node body)
  | .singleVariableDeclaration modifiers varargs type name =>
    .singleVariableDeclaration modifiers varargs (fold absent node type) (fold absent node name)
  | .variableDeclarationFragment name initializer =>
    .variableDeclarationFragment (fold absent node name) (fold absent node initializer)
  | .block statements => .block (foldList absent node statements)
  | .emptyStatement => .emptyStatement
  | .expressionStatement expression => .expressionStatement (fold absent node expression)
  | .variableDeclarationStatement modifiers type fragments =>
    .variableDeclarationStatement modifiers (fold absent node type) (foldList absent node fragments)
  | .ifStatement expression thenStatement elseStatement =>
    .ifStatement (fold absent node expression) (fold absent node thenStatement)
      (fold absent node elseStatement)
  | .whileStatement expression body =>
    .whileStatement (fold absent node expression) (fold absent node body)
  | .doStatement body expression =>
    .doStatement (fold absent node body) (fold absent node expression)
  | .forStatement initializers expression updaters body =>
    .forStatement (foldList absent node initializers) (fold absent node expression)
      (foldList absent node updaters) (fold absent node body)
  | .returnStatement expression => .returnStatement (fold absent node expression)
  | .breakStatement => .breakStatement
  | .continueStatement => .continueStatement
  | .throwStatement expression => .throwStatement (fold absent node expression)
  | .parenthesizedExpression expression => .parenthesizedExpression (fold absent node expression)
  | .infixExpression operator leftOperand rightOperand =>
    .infixExpression operator (fold absent node leftOperand) (fold absent node rightOperand)
  | .prefixExpression operator operand => .prefixExpression operator (fold absent node operand)
  | .postfixExpression operator operand => .postfixExpression operator (fold absent node operand)
  | .assignment operator leftHandSide rightHandSide =>
    .assignment operator (fold absent node leftHandSide) (fold absent node rightHandSide)
  | .conditionalExpression expression thenExpression elseExpression =>
    .conditionalExpression (fold absent node expression) (fold absent node thenExpression)
      (fold absent node elseExpression)
  | .methodInvocation expression name arguments =>
    .methodInvocation (fold absent node expression) (fold absent node name)
      (foldList absent node arguments)
  | .fieldAccess expression name =>
    .fieldAccess (fold absent node expression) (fold absent node name)
  | .arrayAccess array index => .arrayAccess (fold absent node array) (fold absent node index)
  | .classInstanceCreation type arguments =>
    .classInstanceCreation (fold absent node type) (foldList absent node arguments)
  | .castExpression type expression =>
    .castExpression (fold absent node type) (fold absent node expression)
  | .instanceofExpression leftOperand rightOperand =>
    .instanceofExpression (fold absent node leftOperand) (fold absent node rightOperand)
  | .thisExpression => .thisExpression
  | .simpleName identifier => .simpleName identifier
  | .qualifiedName qualifier name =>
    .qualifiedName (fold absent node qualifier) (fold absent node name)
  | .booleanLiteral value => .booleanLiteral value
  | .characterLiteral escaped => .characterLiteral escaped
  | .nullLiteral => .nullLiteral
  | .stringLiteral escaped => .stringLiteral escaped
  | .numberLiteral token => .numberLiteral token
  | .typeLiteral type => .typeLiteral (fold absent node type)
  | .primitiveType primitive => .primitiveType primitive
  | .simpleType name => .simpleType (fold absent node name)
  | .arrayType componentType => .arrayType (fold absent node componentType)

/-- The values of the trees of a list. -/
def foldList (absent : β) (node : ι → NodeKind String β → β) : List (Tree ι) → List β
  | [] => []
  | tree :: trees => fold absent node tree :: foldList absent node trees
end

theorem foldList_eq_map (absent : β) (node : ι → NodeKind String β → β) (trees : List (Tree ι)) :
    foldList absent node trees = trees.map (fold absent node) := by
  induction trees with
  | nil => rfl
  | cons tree trees ih => rw [foldList, ih, List.map_cons]

/-- The value of a node is computed from the values of its children. -/
theorem fold_node (absent : β) (node : ι → NodeKind String β → β) (info : ι)
    (kind : NodeKind String (Tree ι)) :
    fold absent node (.node info kind) = node info (kind.map id (fold absent node)) := by
  rw [fold]
  congr 1
  cases kind <;> simp only [foldKind, foldList_eq_map] <;> rfl

@[simp] theorem fold_absent (absent : β) (node : ι → NodeKind String β → β) :
    fold absent node (.absent : Tree ι) = absent := rfl

/-- The values that the nodes carry, parents before children. -/
def preorder : Tree ι → List ι :=
  fold [] fun info kind => info :: kind.occupants.flatten

/-- The values that the nodes carry, children before parents. -/
def postorder : Tree ι → List ι :=
  fold [] fun info kind => kind.occupants.flatten ++ [info]

/-- What a walk over a tree comes across. -/
inductive Visit (ι : Type) where
  /-- A node before its children. -/
  | entered (info : ι)
  /-- A node that is passed over, children included. -/
  | skipped (info : ι)
  /-- A node after its children. -/
  | left (info : ι)
  deriving DecidableEq, Repr

/-- A walk over a tree that goes below the nodes that `descend` accepts. -/
def walk (descend : Tag → Bool) : Tree ι → List (Visit ι) :=
  fold [] fun info kind =>
    if descend kind.tag then .entered info :: kind.occupants.flatten ++ [.left info]
    else [.skipped info]

end Tree

end JavaFold
