import JavaFold.Node.Location

/-!
# Names of the kinds of nodes

A tag is a kind of node without its children and attributes.
-/

namespace JavaFold

/-- The names of the kinds of nodes. -/
inductive Tag where
  | compilationUnit | packageDeclaration | importDeclaration | typeDeclaration | fieldDeclaration
  | methodDeclaration | singleVariableDeclaration | variableDeclarationFragment | block
  | emptyStatement | expressionStatement | variableDeclarationStatement | ifStatement
  | whileStatement | doStatement | forStatement | returnStatement | breakStatement
  | continueStatement | throwStatement | parenthesizedExpression | infixExpression
  | prefixExpression | postfixExpression | assignment | conditionalExpression | methodInvocation
  | fieldAccess | arrayAccess | classInstanceCreation | castExpression | instanceofExpression
  | thisExpression | simpleName | qualifiedName | booleanLiteral | characterLiteral | nullLiteral
  | stringLiteral | numberLiteral | typeLiteral | primitiveType | simpleType | arrayType
  deriving DecidableEq, Repr

namespace Tag

/-- Every tag. -/
def all : List Tag :=
  [compilationUnit, packageDeclaration, importDeclaration, typeDeclaration, fieldDeclaration,
    methodDeclaration, singleVariableDeclaration, variableDeclarationFragment, block,
    emptyStatement, expressionStatement, variableDeclarationStatement, ifStatement, whileStatement,
    doStatement, forStatement, returnStatement, breakStatement, continueStatement, throwStatement,
    parenthesizedExpression, infixExpression, prefixExpression, postfixExpression, assignment,
    conditionalExpression, methodInvocation, fieldAccess, arrayAccess, classInstanceCreation,
    castExpression, instanceofExpression, thisExpression, simpleName, qualifiedName, booleanLiteral,
    characterLiteral, nullLiteral, stringLiteral, numberLiteral, typeLiteral, primitiveType,
    simpleType, arrayType]

/-- A tag in messages. -/
def text : Tag → String
  | compilationUnit => "CompilationUnit"
  | packageDeclaration => "PackageDeclaration"
  | importDeclaration => "ImportDeclaration"
  | typeDeclaration => "TypeDeclaration"
  | fieldDeclaration => "FieldDeclaration"
  | methodDeclaration => "MethodDeclaration"
  | singleVariableDeclaration => "SingleVariableDeclaration"
  | variableDeclarationFragment => "VariableDeclarationFragment"
  | block => "Block"
  | emptyStatement => "EmptyStatement"
  | expressionStatement => "ExpressionStatement"
  | variableDeclarationStatement => "VariableDeclarationStatement"
  | ifStatement => "IfStatement"
  | whileStatement => "WhileStatement"
  | doStatement => "DoStatement"
  | forStatement => "ForStatement"
  | returnStatement => "ReturnStatement"
  | breakStatement => "BreakStatement"
  | continueStatement => "ContinueStatement"
  | throwStatement => "ThrowStatement"
  | parenthesizedExpression => "ParenthesizedExpression"
  | infixExpression => "InfixExpression"
  | prefixExpression => "PrefixExpression"
  | postfixExpression => "PostfixExpression"
  | assignment => "Assignment"
  | conditionalExpression => "ConditionalExpression"
  | methodInvocation => "MethodInvocation"
  | fieldAccess => "FieldAccess"
  | arrayAccess => "ArrayAccess"
  | classInstanceCreation => "ClassInstanceCreation"
  | castExpression => "CastExpression"
  | instanceofExpression => "InstanceofExpression"
  | thisExpression => "ThisExpression"
  | simpleName => "SimpleName"
  | qualifiedName => "QualifiedName"
  | booleanLiteral => "BooleanLiteral"
  | characterLiteral => "CharacterLiteral"
  | nullLiteral => "NullLiteral"
  | stringLiteral => "StringLiteral"
  | numberLiteral => "NumberLiteral"
  | typeLiteral => "TypeLiteral"
  | primitiveType => "PrimitiveType"
  | simpleType => "SimpleType"
  | arrayType => "ArrayType"

/-- The tag with a given spelling. -/
def ofText? (text : String) : Option Tag :=
  all.find? fun tag => tag.text == text

/-- Whether a kind stands for a value on its own: a boolean, character, null, string, number or type
literal. -/
def isLiteral : Tag → Bool
  | booleanLiteral | characterLiteral | nullLiteral | stringLiteral | numberLiteral
  | typeLiteral => true
  | _ => false

/-- Whether a kind is a statement. -/
def isStatement : Tag → Bool
  | block | emptyStatement | expressionStatement | variableDeclarationStatement | ifStatement
  | whileStatement | doStatement | forStatement | returnStatement | breakStatement
  | continueStatement | throwStatement => true
  | _ => false

/-- Whether a single slot may be left empty. -/
def isOptional : Tag → Property → Bool
  | compilationUnit, .package => true
  | typeDeclaration, .superclass => true
  | methodDeclaration, .returnType => true
  | methodDeclaration, .body => true
  | variableDeclarationFragment, .initializer => true
  | ifStatement, .elseStatement => true
  | forStatement, .expression => true
  | returnStatement, .expression => true
  | methodInvocation, .expression => true
  | _, _ => false

end Tag

end JavaFold
