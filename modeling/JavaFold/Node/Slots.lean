import JavaFold.Node.Kind

/-!
# Reading and changing child positions

Which child positions a kind has, what a single slot of it holds and what a list of it holds are
three tables, each with one row for a kind or for a child position of a kind. A child position is
changed by rebuilding the kind. The children of a kind are what its slots hold, each with its
location.
-/

namespace JavaFold

namespace NodeKind

variable {τ α : Type}

/-- A kind with the contents of its child positions replaced. -/
def modify (one : Property → α → α) (many : Property → List α → List α)
    (kind : NodeKind τ α) : NodeKind τ α :=
  Id.run (kind.traverse pure (fun p c => pure (one p c)) (fun p cs => pure (many p cs)))

/-- The child positions of a kind, in source order. -/
def properties : NodeKind τ α → List Property
  | compilationUnit .. => [.package, .imports, .types]
  | packageDeclaration .. | importDeclaration .. | simpleType .. => [.name]
  | typeDeclaration .. => [.name, .superclass, .bodyDeclarations]
  | fieldDeclaration .. | variableDeclarationStatement .. => [.type, .fragments]
  | methodDeclaration .. => [.returnType, .name, .parameters, .body]
  | singleVariableDeclaration .. => [.type, .name]
  | variableDeclarationFragment .. => [.name, .initializer]
  | block .. => [.statements]
  | expressionStatement .. | returnStatement .. | throwStatement ..
  | parenthesizedExpression .. => [.expression]
  | ifStatement .. => [.expression, .thenStatement, .elseStatement]
  | whileStatement .. => [.expression, .body]
  | doStatement .. => [.body, .expression]
  | forStatement .. => [.initializers, .expression, .updaters, .body]
  | infixExpression .. | instanceofExpression .. => [.leftOperand, .rightOperand]
  | prefixExpression .. | postfixExpression .. => [.operand]
  | assignment .. => [.leftHandSide, .rightHandSide]
  | conditionalExpression .. => [.expression, .thenExpression, .elseExpression]
  | methodInvocation .. => [.expression, .name, .arguments]
  | fieldAccess .. => [.expression, .name]
  | arrayAccess .. => [.array, .index]
  | classInstanceCreation .. => [.type, .arguments]
  | castExpression .. => [.type, .expression]
  | qualifiedName .. => [.qualifier, .name]
  | typeLiteral .. => [.type]
  | arrayType .. => [.componentType]
  | emptyStatement | breakStatement | continueStatement | thisExpression | simpleName ..
  | booleanLiteral .. | characterLiteral .. | nullLiteral | stringLiteral .. | numberLiteral ..
  | primitiveType .. => []

/-- The content of a single slot, if the kind has it. -/
def slot? : NodeKind τ α → Property → Option α
  | compilationUnit package .., .package => some package
  | packageDeclaration name, .name => some name
  | importDeclaration _ _ name, .name => some name
  | typeDeclaration _ _ name .., .name => some name
  | typeDeclaration _ _ _ superclass _, .superclass => some superclass
  | fieldDeclaration _ type _, .type => some type
  | methodDeclaration _ _ returnType .., .returnType => some returnType
  | methodDeclaration _ _ _ name .., .name => some name
  | methodDeclaration _ _ _ _ _ body, .body => some body
  | singleVariableDeclaration _ _ type _, .type => some type
  | singleVariableDeclaration _ _ _ name, .name => some name
  | variableDeclarationFragment name _, .name => some name
  | variableDeclarationFragment _ initializer, .initializer => some initializer
  | expressionStatement expression, .expression => some expression
  | variableDeclarationStatement _ type _, .type => some type
  | ifStatement expression .., .expression => some expression
  | ifStatement _ thenStatement _, .thenStatement => some thenStatement
  | ifStatement _ _ elseStatement, .elseStatement => some elseStatement
  | whileStatement expression _, .expression => some expression
  | whileStatement _ body, .body => some body
  | doStatement body _, .body => some body
  | doStatement _ expression, .expression => some expression
  | forStatement _ expression .., .expression => some expression
  | forStatement _ _ _ body, .body => some body
  | returnStatement expression, .expression => some expression
  | throwStatement expression, .expression => some expression
  | parenthesizedExpression expression, .expression => some expression
  | infixExpression _ leftOperand _, .leftOperand => some leftOperand
  | infixExpression _ _ rightOperand, .rightOperand => some rightOperand
  | prefixExpression _ operand, .operand => some operand
  | postfixExpression _ operand, .operand => some operand
  | assignment _ leftHandSide _, .leftHandSide => some leftHandSide
  | assignment _ _ rightHandSide, .rightHandSide => some rightHandSide
  | conditionalExpression expression .., .expression => some expression
  | conditionalExpression _ thenExpression _, .thenExpression => some thenExpression
  | conditionalExpression _ _ elseExpression, .elseExpression => some elseExpression
  | methodInvocation expression .., .expression => some expression
  | methodInvocation _ name _, .name => some name
  | fieldAccess expression _, .expression => some expression
  | fieldAccess _ name, .name => some name
  | arrayAccess array _, .array => some array
  | arrayAccess _ index, .index => some index
  | classInstanceCreation type _, .type => some type
  | castExpression type _, .type => some type
  | castExpression _ expression, .expression => some expression
  | instanceofExpression leftOperand _, .leftOperand => some leftOperand
  | instanceofExpression _ rightOperand, .rightOperand => some rightOperand
  | qualifiedName qualifier _, .qualifier => some qualifier
  | qualifiedName _ name, .name => some name
  | typeLiteral type, .type => some type
  | simpleType name, .name => some name
  | arrayType componentType, .componentType => some componentType
  | _, _ => none

/-- The content of a list, if the kind has it. -/
def list? : NodeKind τ α → Property → Option (List α)
  | compilationUnit _ imports _, .imports => some imports
  | compilationUnit _ _ types, .types => some types
  | typeDeclaration _ _ _ _ bodyDeclarations, .bodyDeclarations => some bodyDeclarations
  | fieldDeclaration _ _ fragments, .fragments => some fragments
  | methodDeclaration _ _ _ _ parameters _, .parameters => some parameters
  | variableDeclarationStatement _ _ fragments, .fragments => some fragments
  | block statements, .statements => some statements
  | forStatement initializers .., .initializers => some initializers
  | forStatement _ _ updaters _, .updaters => some updaters
  | methodInvocation _ _ arguments, .arguments => some arguments
  | classInstanceCreation _ arguments, .arguments => some arguments
  | _, _ => none

/-- The child at a location, if the kind has the location. -/
def get? (kind : NodeKind τ α) : Location → Option α
  | .single property => kind.slot? property
  | .element property index => (kind.list? property).bind (·[index]?)

/-- A kind with the content of one single slot changed. -/
def modifySlot (kind : NodeKind τ α) (property : Property) (change : α → α) : NodeKind τ α :=
  kind.modify (fun p c => if p = property then change c else c) (fun _ cs => cs)

/-- A kind with the content of one list changed. -/
def modifyList (kind : NodeKind τ α) (property : Property) (change : List α → List α) :
    NodeKind τ α :=
  kind.modify (fun _ c => c) (fun p cs => if p = property then change cs else cs)

/-- A kind with the child at one location replaced. -/
def set (kind : NodeKind τ α) (location : Location) (child : α) : NodeKind τ α :=
  match location with
  | .single property => kind.modifySlot property fun _ => child
  | .element property index => kind.modifyList property (·.set index child)

/-- A kind with the child at one location taken out: a single slot is left with `empty`, a list
closes the gap. -/
def erase (kind : NodeKind τ α) (location : Location) (empty : α) : NodeKind τ α :=
  match location with
  | .single property => kind.modifySlot property fun _ => empty
  | .element property index => kind.modifyList property (·.eraseIdx index)

/-- What the child positions hold, in source order, empty single slots included. -/
def occupants (kind : NodeKind τ α) : List α :=
  kind.slots.flatMap fun
    | (_, .one child) => [child]
    | (_, .many children) => children

end NodeKind

/-- What can fill a child position, with the test that tells a child from an empty single slot. -/
class Occupant (α : Type) where
  /-- Whether there is a child. -/
  isPresent : α → Bool

/-- The children in one position with their locations, an empty single slot giving none. -/
def Slot.children {α : Type} [Occupant α] (property : Property) : Slot α → List (Location × α)
  | .one child => if Occupant.isPresent child then [(.single property, child)] else []
  | .many children => children.mapIdx fun index child => (.element property index, child)

/-- The children of a kind with their locations, in source order. -/
def NodeKind.children {τ α : Type} [Occupant α] (kind : NodeKind τ α) : List (Location × α) :=
  kind.slots.flatMap fun (property, slot) => slot.children property

namespace NodeKind

variable {τ α : Type}

/-- A child is one of the occupants of the child positions. -/
theorem mem_occupants_of_mem_children [Occupant α] {kind : NodeKind τ α} {location : Location}
    {child : α} (h : (location, child) ∈ kind.children) : child ∈ kind.occupants := by
  obtain ⟨⟨property, slot⟩, hs, hc⟩ := List.mem_flatMap.1 h
  refine List.mem_flatMap.2 ⟨(property, slot), hs, ?_⟩
  cases slot with
  | one child =>
    simp only [Slot.children] at hc
    split at hc <;> simp_all
  | many children =>
    simp only [Slot.children, List.mem_mapIdx] at hc
    obtain ⟨i, hi, e⟩ := hc
    simp only [Prod.mk.injEq] at e
    exact e.2 ▸ List.getElem_mem hi

/-- An occupant of a child position is smaller than the kind it belongs to. -/
theorem sizeOf_lt_of_mem_occupants [SizeOf τ] [SizeOf α] {kind : NodeKind τ α} {child : α}
    (h : child ∈ kind.occupants) : sizeOf child < sizeOf kind := by
  have hl (xs : List α) (hc : child ∈ xs) : sizeOf child < sizeOf xs := List.sizeOf_lt_of_mem hc
  cases kind <;> simp [occupants, slots] at h ⊢ <;> grind

end NodeKind

end JavaFold
