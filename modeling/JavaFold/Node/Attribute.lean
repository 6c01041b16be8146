import JavaFold.Node.Kind
import JavaFold.Text.Quoted

/-!
# Attributes

What a node carries besides its children: modifiers, flags, operators and texts. Two nodes of one
kind have the same list of attributes up to their values.
-/

namespace JavaFold

/-- A part of a node that is not a child, texts being of type `τ`. -/
inductive Attribute (τ : Type) where
  | isStatic (value : Bool)
  | onDemand (value : Bool)
  | modifiers (value : Modifiers)
  | interface (value : Bool)
  | constructor (value : Bool)
  | varargs (value : Bool)
  | infixOperator (value : InfixOperator)
  | prefixOperator (value : PrefixOperator)
  | postfixOperator (value : PostfixOperator)
  | assignmentOperator (value : AssignmentOperator)
  | value (value : Bool)
  | primitive (value : PrimitiveType)
  | text (value : τ)
  deriving DecidableEq, Repr

namespace Attribute

/-- What an attribute is called in messages. -/
def title {τ : Type} : Attribute τ → String
  | isStatic _ => "static"
  | onDemand _ => "on-demand"
  | modifiers _ => "modifiers"
  | interface _ => "interface"
  | constructor _ => "constructor"
  | varargs _ => "varargs"
  | infixOperator _ | prefixOperator _ | postfixOperator _ | assignmentOperator _ => "operator"
  | value _ => "value"
  | primitive _ => "primitive"
  | text _ => "text"

/-- The value of an attribute in messages. -/
def shown : Attribute String → String
  | isStatic b | onDemand b | interface b | constructor b | varargs b | value b =>
    if b then "true" else "false"
  | modifiers m => m.name
  | infixOperator o => o.name
  | prefixOperator o => o.name
  | postfixOperator o => o.name
  | assignmentOperator o => o.name
  | primitive p => p.name
  | text t => Text.quoteText t

end Attribute

/-- The attributes of a node, in the order in which nodes are compared. -/
def NodeKind.attributes {τ α : Type} : NodeKind τ α → List (Attribute τ)
  | importDeclaration isStatic onDemand _ => [.isStatic isStatic, .onDemand onDemand]
  | typeDeclaration modifiers interface .. => [.modifiers modifiers, .interface interface]
  | fieldDeclaration modifiers .. => [.modifiers modifiers]
  | methodDeclaration modifiers constructor .. =>
    [.modifiers modifiers, .constructor constructor]
  | singleVariableDeclaration modifiers varargs .. => [.modifiers modifiers, .varargs varargs]
  | variableDeclarationStatement modifiers .. => [.modifiers modifiers]
  | infixExpression operator .. => [.infixOperator operator]
  | prefixExpression operator _ => [.prefixOperator operator]
  | postfixExpression operator _ => [.postfixOperator operator]
  | assignment operator .. => [.assignmentOperator operator]
  | simpleName identifier => [.text identifier]
  | booleanLiteral value => [.value value]
  | characterLiteral escaped => [.text escaped]
  | stringLiteral escaped => [.text escaped]
  | numberLiteral token => [.text token]
  | primitiveType primitive => [.primitive primitive]
  | _ => []

end JavaFold
