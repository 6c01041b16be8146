/-!
# Child positions

A property names one child position of a node: a single slot such as the condition of an `if`, or a
list such as the statements of a block. A location says where one child sits: in a single slot, or
at an index of a list.
-/

namespace JavaFold

/-- The child positions of all nodes, single slots first. -/
inductive Property where
  | package | name | superclass | type | returnType | body | initializer | expression
  | thenStatement | elseStatement | leftOperand | rightOperand | operand
  | leftHandSide | rightHandSide | thenExpression | elseExpression
  | array | index | qualifier | componentType
  | imports | types | bodyDeclarations | fragments | parameters | statements
  | initializers | updaters | arguments
  deriving DecidableEq, Repr

namespace Property

/-- Every property, single slots first. -/
def all : List Property :=
  [package, name, superclass, type, returnType, body, initializer, expression, thenStatement,
    elseStatement, leftOperand, rightOperand, operand, leftHandSide, rightHandSide,
    thenExpression, elseExpression, array, index, qualifier, componentType, imports, types,
    bodyDeclarations, fragments, parameters, statements, initializers, updaters, arguments]

/-- Whether a property holds a list of children. -/
def isList : Property → Bool
  | imports | types | bodyDeclarations | fragments | parameters | statements | initializers
  | updaters | arguments => true
  | _ => false

/-- The spelling of a property in messages. -/
def text : Property → String
  | package => "package"
  | name => "name"
  | superclass => "superclass"
  | type => "type"
  | returnType => "returnType"
  | body => "body"
  | initializer => "initializer"
  | expression => "expression"
  | thenStatement => "thenStatement"
  | elseStatement => "elseStatement"
  | leftOperand => "leftOperand"
  | rightOperand => "rightOperand"
  | operand => "operand"
  | leftHandSide => "leftHandSide"
  | rightHandSide => "rightHandSide"
  | thenExpression => "thenExpression"
  | elseExpression => "elseExpression"
  | array => "array"
  | index => "index"
  | qualifier => "qualifier"
  | componentType => "componentType"
  | imports => "imports"
  | types => "types"
  | bodyDeclarations => "bodyDeclarations"
  | fragments => "fragments"
  | parameters => "parameters"
  | statements => "statements"
  | initializers => "initializers"
  | updaters => "updaters"
  | arguments => "arguments"

/-- The name of a property among all properties. -/
def title (property : Property) : String :=
  property.text.capitalize

/-- The property with a given spelling. -/
def ofText? (text : String) : Option Property :=
  all.find? fun property => property.text == text

end Property

/-- Where a child sits in its parent. -/
inductive Location where
  /-- The child fills a single slot. -/
  | single (property : Property)
  /-- The child is one element of a list. -/
  | element (property : Property) (index : Nat)
  deriving DecidableEq, Repr

namespace Location

/-- The largest index of a list element that a location can tell. -/
def maxIndex : Nat := 4294967295

/-- The property a location belongs to. -/
def property : Location → Property
  | single property => property
  | element property _ => property

/-- A location in messages, such as `body` or `statements[2]`. -/
def text : Location → String
  | single property => property.text
  | element property index => s!"{property.text}[{index}]"

/-- A location with the names of its parts, such as `Single(Body)` or `List(Statements, 2)`. -/
def name : Location → String
  | single property => s!"Single({property.title})"
  | element property index => s!"List({property.title}, {index})"

end Location

end JavaFold
