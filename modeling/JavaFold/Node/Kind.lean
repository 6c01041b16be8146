import JavaFold.Modifiers
import JavaFold.Node.Tag
import JavaFold.Operator

/-!
# Kinds of nodes

A node of a program is one of 44 kinds. A kind fixes the child positions of its nodes and the other
attributes they carry. It is a functor in two arguments: in the type of texts, since a tree holds
the text of a name where an arena holds a handle to it, and in the type of children, which are trees
or handles of nodes.

Two tables visit every child position of a kind: `NodeKind.slots` lists them with what they hold and
`NodeKind.traverse` rebuilds the kind from new contents. Children are listed through the first one,
and replaced and copied through the second one.
-/

namespace JavaFold

/-- A kind of node with its attributes, the texts being of type `τ` and the children of type `α`. -/
inductive NodeKind (τ α : Type) where
  /-- A source file: an optional package, imports and types. -/
  | compilationUnit (package : α) (imports types : List α)
  /-- A package clause, as in `package a.b;`. -/
  | packageDeclaration (name : α)
  /-- An import, as in `import a.b;`, `import static a.b;` and `import a.b.*;`. -/
  | importDeclaration (isStatic onDemand : Bool) (name : α)
  /-- A class or an interface with its members. -/
  | typeDeclaration (modifiers : Modifiers) (interface : Bool) (name superclass : α)
    (bodyDeclarations : List α)
  /-- A field, as in `int a = 1, b;`. -/
  | fieldDeclaration (modifiers : Modifiers) (type : α) (fragments : List α)
  /-- A method or a constructor, with or without a body. -/
  | methodDeclaration (modifiers : Modifiers) (constructor : Bool) (returnType name : α)
    (parameters : List α) (body : α)
  /-- A parameter, as in `int a` and `int... a`. -/
  | singleVariableDeclaration (modifiers : Modifiers) (varargs : Bool) (type name : α)
  /-- One declared variable, as in `a` and `a = 1`. -/
  | variableDeclarationFragment (name initializer : α)
  /-- Statements between braces. -/
  | block (statements : List α)
  /-- A lone semicolon. -/
  | emptyStatement
  /-- An expression as a statement. -/
  | expressionStatement (expression : α)
  /-- A local declaration, as in `int a = 1, b;`. -/
  | variableDeclarationStatement (modifiers : Modifiers) (type : α) (fragments : List α)
  /-- A conditional statement, with or without an alternative. -/
  | ifStatement (expression thenStatement elseStatement : α)
  /-- A loop, as in `while (e) s`. -/
  | whileStatement (expression body : α)
  /-- A loop, as in `do s while (e);`. -/
  | doStatement (body expression : α)
  /-- A loop, as in `for (a; b; c) s`. -/
  | forStatement (initializers : List α) (expression : α) (updaters : List α) (body : α)
  /-- A return, with or without a value. -/
  | returnStatement (expression : α)
  /-- The statement `break;`. -/
  | breakStatement
  /-- The statement `continue;`. -/
  | continueStatement
  /-- A throw, as in `throw e;`. -/
  | throwStatement (expression : α)
  /-- An expression in parentheses. -/
  | parenthesizedExpression (expression : α)
  /-- Two operands, as in `a + b`. -/
  | infixExpression (operator : InfixOperator) (leftOperand rightOperand : α)
  /-- An operator and its operand, as in `-a`. -/
  | prefixExpression (operator : PrefixOperator) (operand : α)
  /-- An operand and its operator, as in `a++`. -/
  | postfixExpression (operator : PostfixOperator) (operand : α)
  /-- An assignment, as in `a = b`. -/
  | assignment (operator : AssignmentOperator) (leftHandSide rightHandSide : α)
  /-- A choice, as in `a ? b : c`. -/
  | conditionalExpression (expression thenExpression elseExpression : α)
  /-- A call, as in `f(a)` and `e.f(a)`. -/
  | methodInvocation (expression name : α) (arguments : List α)
  /-- A member of an expression, as in `e.a`. -/
  | fieldAccess (expression name : α)
  /-- An element, as in `a[i]`. -/
  | arrayAccess (array index : α)
  /-- A new object, as in `new A(a)`. -/
  | classInstanceCreation (type : α) (arguments : List α)
  /-- A cast, as in `(A) e`. -/
  | castExpression (type expression : α)
  /-- A type test, as in `e instanceof A`. -/
  | instanceofExpression (leftOperand rightOperand : α)
  /-- The expression `this`. -/
  | thisExpression
  /-- An identifier. -/
  | simpleName (identifier : τ)
  /-- A name with a qualifier, as in `a.b`. -/
  | qualifiedName (qualifier name : α)
  /-- A truth value. -/
  | booleanLiteral (value : Bool)
  /-- A character literal, quotes and escapes included. -/
  | characterLiteral (escaped : τ)
  /-- The literal `null`. -/
  | nullLiteral
  /-- A string literal, quotes and escapes included. -/
  | stringLiteral (escaped : τ)
  /-- A number literal as written. -/
  | numberLiteral (token : τ)
  /-- A type as a value, as in `A.class`. -/
  | typeLiteral (type : α)
  /-- A type that is a keyword. -/
  | primitiveType (primitive : PrimitiveType)
  /-- A name as a type. -/
  | simpleType (name : α)
  /-- An array type, as in `A[]`. -/
  | arrayType (componentType : α)
  deriving DecidableEq, Repr

/-- What a child position holds: one child, which may be missing, or a list of children. -/
inductive Slot (α : Type) where
  /-- A single slot. -/
  | one (child : α)
  /-- A list of children. -/
  | many (children : List α)
  deriving DecidableEq, Repr

namespace NodeKind

variable {τ σ α β : Type}

/-- The tag of a kind. -/
def tag : NodeKind τ α → Tag
  | compilationUnit .. => .compilationUnit
  | packageDeclaration .. => .packageDeclaration
  | importDeclaration .. => .importDeclaration
  | typeDeclaration .. => .typeDeclaration
  | fieldDeclaration .. => .fieldDeclaration
  | methodDeclaration .. => .methodDeclaration
  | singleVariableDeclaration .. => .singleVariableDeclaration
  | variableDeclarationFragment .. => .variableDeclarationFragment
  | block .. => .block
  | emptyStatement => .emptyStatement
  | expressionStatement .. => .expressionStatement
  | variableDeclarationStatement .. => .variableDeclarationStatement
  | ifStatement .. => .ifStatement
  | whileStatement .. => .whileStatement
  | doStatement .. => .doStatement
  | forStatement .. => .forStatement
  | returnStatement .. => .returnStatement
  | breakStatement => .breakStatement
  | continueStatement => .continueStatement
  | throwStatement .. => .throwStatement
  | parenthesizedExpression .. => .parenthesizedExpression
  | infixExpression .. => .infixExpression
  | prefixExpression .. => .prefixExpression
  | postfixExpression .. => .postfixExpression
  | assignment .. => .assignment
  | conditionalExpression .. => .conditionalExpression
  | methodInvocation .. => .methodInvocation
  | fieldAccess .. => .fieldAccess
  | arrayAccess .. => .arrayAccess
  | classInstanceCreation .. => .classInstanceCreation
  | castExpression .. => .castExpression
  | instanceofExpression .. => .instanceofExpression
  | thisExpression => .thisExpression
  | simpleName .. => .simpleName
  | qualifiedName .. => .qualifiedName
  | booleanLiteral .. => .booleanLiteral
  | characterLiteral .. => .characterLiteral
  | nullLiteral => .nullLiteral
  | stringLiteral .. => .stringLiteral
  | numberLiteral .. => .numberLiteral
  | typeLiteral .. => .typeLiteral
  | primitiveType .. => .primitiveType
  | simpleType .. => .simpleType
  | arrayType .. => .arrayType

/-- The child positions of a kind with what they hold, in source order. -/
def slots : NodeKind τ α → List (Property × Slot α)
  | compilationUnit package imports types =>
    [(.package, .one package), (.imports, .many imports), (.types, .many types)]
  | packageDeclaration name => [(.name, .one name)]
  | importDeclaration _ _ name => [(.name, .one name)]
  | typeDeclaration _ _ name superclass bodyDeclarations =>
    [(.name, .one name), (.superclass, .one superclass),
      (.bodyDeclarations, .many bodyDeclarations)]
  | fieldDeclaration _ type fragments => [(.type, .one type), (.fragments, .many fragments)]
  | methodDeclaration _ _ returnType name parameters body =>
    [(.returnType, .one returnType), (.name, .one name), (.parameters, .many parameters),
      (.body, .one body)]
  | singleVariableDeclaration _ _ type name => [(.type, .one type), (.name, .one name)]
  | variableDeclarationFragment name initializer =>
    [(.name, .one name), (.initializer, .one initializer)]
  | block statements => [(.statements, .many statements)]
  | expressionStatement expression => [(.expression, .one expression)]
  | variableDeclarationStatement _ type fragments =>
    [(.type, .one type), (.fragments, .many fragments)]
  | ifStatement expression thenStatement elseStatement =>
    [(.expression, .one expression), (.thenStatement, .one thenStatement),
      (.elseStatement, .one elseStatement)]
  | whileStatement expression body => [(.expression, .one expression), (.body, .one body)]
  | doStatement body expression => [(.body, .one body), (.expression, .one expression)]
  | forStatement initializers expression updaters body =>
    [(.initializers, .many initializers), (.expression, .one expression),
      (.updaters, .many updaters), (.body, .one body)]
  | returnStatement expression => [(.expression, .one expression)]
  | throwStatement expression => [(.expression, .one expression)]
  | parenthesizedExpression expression => [(.expression, .one expression)]
  | infixExpression _ leftOperand rightOperand =>
    [(.leftOperand, .one leftOperand), (.rightOperand, .one rightOperand)]
  | prefixExpression _ operand => [(.operand, .one operand)]
  | postfixExpression _ operand => [(.operand, .one operand)]
  | assignment _ leftHandSide rightHandSide =>
    [(.leftHandSide, .one leftHandSide), (.rightHandSide, .one rightHandSide)]
  | conditionalExpression expression thenExpression elseExpression =>
    [(.expression, .one expression), (.thenExpression, .one thenExpression),
      (.elseExpression, .one elseExpression)]
  | methodInvocation expression name arguments =>
    [(.expression, .one expression), (.name, .one name), (.arguments, .many arguments)]
  | fieldAccess expression name => [(.expression, .one expression), (.name, .one name)]
  | arrayAccess array index => [(.array, .one array), (.index, .one index)]
  | classInstanceCreation type arguments => [(.type, .one type), (.arguments, .many arguments)]
  | castExpression type expression => [(.type, .one type), (.expression, .one expression)]
  | instanceofExpression leftOperand rightOperand =>
    [(.leftOperand, .one leftOperand), (.rightOperand, .one rightOperand)]
  | qualifiedName qualifier name => [(.qualifier, .one qualifier), (.name, .one name)]
  | typeLiteral type => [(.type, .one type)]
  | simpleType name => [(.name, .one name)]
  | arrayType componentType => [(.componentType, .one componentType)]
  | _ => []

/-- Rebuild a kind from new texts and new children, visited in source order. -/
def traverse {m : Type → Type} [Monad m] (text : τ → m σ) (one : Property → α → m β)
    (many : Property → List α → m (List β)) : NodeKind τ α → m (NodeKind σ β)
  | compilationUnit package imports types => do
    return .compilationUnit (← one .package package) (← many .imports imports) (← many .types types)
  | packageDeclaration name => do return .packageDeclaration (← one .name name)
  | importDeclaration isStatic onDemand name => do
    return .importDeclaration isStatic onDemand (← one .name name)
  | typeDeclaration modifiers interface name superclass bodyDeclarations => do
    return .typeDeclaration modifiers interface (← one .name name) (← one .superclass superclass)
      (← many .bodyDeclarations bodyDeclarations)
  | fieldDeclaration modifiers type fragments => do
    return .fieldDeclaration modifiers (← one .type type) (← many .fragments fragments)
  | methodDeclaration modifiers constructor returnType name parameters body => do
    return .methodDeclaration modifiers constructor (← one .returnType returnType)
      (← one .name name) (← many .parameters parameters) (← one .body body)
  | singleVariableDeclaration modifiers varargs type name => do
    return .singleVariableDeclaration modifiers varargs (← one .type type) (← one .name name)
  | variableDeclarationFragment name initializer => do
    return .variableDeclarationFragment (← one .name name) (← one .initializer initializer)
  | block statements => do return .block (← many .statements statements)
  | emptyStatement => pure .emptyStatement
  | expressionStatement expression => do return .expressionStatement (← one .expression expression)
  | variableDeclarationStatement modifiers type fragments => do
    return .variableDeclarationStatement modifiers (← one .type type) (← many .fragments fragments)
  | ifStatement expression thenStatement elseStatement => do
    return .ifStatement (← one .expression expression) (← one .thenStatement thenStatement)
      (← one .elseStatement elseStatement)
  | whileStatement expression body => do
    return .whileStatement (← one .expression expression) (← one .body body)
  | doStatement body expression => do
    return .doStatement (← one .body body) (← one .expression expression)
  | forStatement initializers expression updaters body => do
    return .forStatement (← many .initializers initializers) (← one .expression expression)
      (← many .updaters updaters) (← one .body body)
  | returnStatement expression => do return .returnStatement (← one .expression expression)
  | breakStatement => pure .breakStatement
  | continueStatement => pure .continueStatement
  | throwStatement expression => do return .throwStatement (← one .expression expression)
  | parenthesizedExpression expression => do
    return .parenthesizedExpression (← one .expression expression)
  | infixExpression operator leftOperand rightOperand => do
    return .infixExpression operator (← one .leftOperand leftOperand)
      (← one .rightOperand rightOperand)
  | prefixExpression operator operand => do
    return .prefixExpression operator (← one .operand operand)
  | postfixExpression operator operand => do
    return .postfixExpression operator (← one .operand operand)
  | assignment operator leftHandSide rightHandSide => do
    return .assignment operator (← one .leftHandSide leftHandSide)
      (← one .rightHandSide rightHandSide)
  | conditionalExpression expression thenExpression elseExpression => do
    return .conditionalExpression (← one .expression expression)
      (← one .thenExpression thenExpression) (← one .elseExpression elseExpression)
  | methodInvocation expression name arguments => do
    return .methodInvocation (← one .expression expression) (← one .name name)
      (← many .arguments arguments)
  | fieldAccess expression name => do
    return .fieldAccess (← one .expression expression) (← one .name name)
  | arrayAccess array index => do return .arrayAccess (← one .array array) (← one .index index)
  | classInstanceCreation type arguments => do
    return .classInstanceCreation (← one .type type) (← many .arguments arguments)
  | castExpression type expression => do
    return .castExpression (← one .type type) (← one .expression expression)
  | instanceofExpression leftOperand rightOperand => do
    return .instanceofExpression (← one .leftOperand leftOperand) (← one .rightOperand rightOperand)
  | thisExpression => pure .thisExpression
  | simpleName identifier => do return .simpleName (← text identifier)
  | qualifiedName qualifier name => do
    return .qualifiedName (← one .qualifier qualifier) (← one .name name)
  | booleanLiteral value => pure (.booleanLiteral value)
  | characterLiteral escaped => do return .characterLiteral (← text escaped)
  | nullLiteral => pure .nullLiteral
  | stringLiteral escaped => do return .stringLiteral (← text escaped)
  | numberLiteral token => do return .numberLiteral (← text token)
  | typeLiteral type => do return .typeLiteral (← one .type type)
  | primitiveType primitive => pure (.primitiveType primitive)
  | simpleType name => do return .simpleType (← one .name name)
  | arrayType componentType => do return .arrayType (← one .componentType componentType)

/-- A kind with every text and every child replaced. -/
def map (text : τ → σ) (child : α → β) (kind : NodeKind τ α) : NodeKind σ β :=
  Id.run (kind.traverse (fun t => pure (text t)) (fun _ c => pure (child c))
    (fun _ cs => pure (cs.map child)))

end NodeKind

end JavaFold
