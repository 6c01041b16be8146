/-!
# Operators and primitive types

The operators of the four operator expressions and the keywords of the primitive types. Every type
comes with the list of its values in a fixed order, the name of each value and its spelling.
-/

namespace JavaFold

/-- The operators between two operands. -/
inductive InfixOperator where
  | times | divide | remainder
  | plus | minus
  | leftShift | rightShiftSigned | rightShiftUnsigned
  | less | greater | lessEquals | greaterEquals
  | equals | notEquals
  | and | xor | or
  | conditionalAnd | conditionalOr
  deriving DecidableEq, Repr

namespace InfixOperator

/-- Every infix operator, the tightest binding ones first. -/
def all : List InfixOperator :=
  [times, divide, remainder, plus, minus, leftShift, rightShiftSigned, rightShiftUnsigned, less,
    greater, lessEquals, greaterEquals, equals, notEquals, and, xor, or, conditionalAnd,
    conditionalOr]

/-- The name of an operator in messages. -/
def name : InfixOperator → String
  | times => "Times"
  | divide => "Divide"
  | remainder => "Remainder"
  | plus => "Plus"
  | minus => "Minus"
  | leftShift => "LeftShift"
  | rightShiftSigned => "RightShiftSigned"
  | rightShiftUnsigned => "RightShiftUnsigned"
  | less => "Less"
  | greater => "Greater"
  | lessEquals => "LessEquals"
  | greaterEquals => "GreaterEquals"
  | equals => "Equals"
  | notEquals => "NotEquals"
  | and => "And"
  | xor => "Xor"
  | or => "Or"
  | conditionalAnd => "ConditionalAnd"
  | conditionalOr => "ConditionalOr"

/-- The spelling of an operator. -/
def symbol : InfixOperator → String
  | times => "*"
  | divide => "/"
  | remainder => "%"
  | plus => "+"
  | minus => "-"
  | leftShift => "<<"
  | rightShiftSigned => ">>"
  | rightShiftUnsigned => ">>>"
  | less => "<"
  | greater => ">"
  | lessEquals => "<="
  | greaterEquals => ">="
  | equals => "=="
  | notEquals => "!="
  | and => "&"
  | xor => "^"
  | or => "|"
  | conditionalAnd => "&&"
  | conditionalOr => "||"

/-- How tightly an operator binds; all infix operators associate to the left. -/
def precedence : InfixOperator → Nat
  | times | divide | remainder => 10
  | plus | minus => 9
  | leftShift | rightShiftSigned | rightShiftUnsigned => 8
  | less | greater | lessEquals | greaterEquals => 7
  | equals | notEquals => 6
  | and => 5
  | xor => 4
  | or => 3
  | conditionalAnd => 2
  | conditionalOr => 1

end InfixOperator

/-- The operators before an operand. -/
inductive PrefixOperator where
  | increment | decrement | plus | minus | complement | not
  deriving DecidableEq, Repr

namespace PrefixOperator

/-- Every operator that stands before its operand. -/
def all : List PrefixOperator :=
  [increment, decrement, plus, minus, complement, not]

/-- The name of an operator in messages. -/
def name : PrefixOperator → String
  | increment => "Increment"
  | decrement => "Decrement"
  | plus => "Plus"
  | minus => "Minus"
  | complement => "Complement"
  | not => "Not"

/-- The spelling of an operator. -/
def symbol : PrefixOperator → String
  | increment => "++"
  | decrement => "--"
  | plus => "+"
  | minus => "-"
  | complement => "~"
  | not => "!"

/-- The sign that the spelling of an operator is made of. -/
def sign? : PrefixOperator → Option Char
  | plus | increment => some '+'
  | minus | decrement => some '-'
  | complement | not => none

/-- Whether two operators in a row would run together into another operator. -/
def gluesTo (outer inner : PrefixOperator) : Bool :=
  outer.sign?.isSome && outer.sign? == inner.sign?

end PrefixOperator

/-- The operators after an operand. -/
inductive PostfixOperator where
  | increment | decrement
  deriving DecidableEq, Repr

namespace PostfixOperator

/-- Every operator that stands after its operand. -/
def all : List PostfixOperator :=
  [increment, decrement]

/-- The name of an operator in messages. -/
def name : PostfixOperator → String
  | increment => "Increment"
  | decrement => "Decrement"

/-- The spelling of an operator. -/
def symbol : PostfixOperator → String
  | increment => "++"
  | decrement => "--"

end PostfixOperator

/-- Plain assignment and the compound ones. -/
inductive AssignmentOperator where
  | assign
  | plusAssign | minusAssign | timesAssign | divideAssign | remainderAssign
  | bitAndAssign | bitOrAssign | bitXorAssign
  | leftShiftAssign | rightShiftSignedAssign | rightShiftUnsignedAssign
  deriving DecidableEq, Repr

namespace AssignmentOperator

/-- Every assignment operator. -/
def all : List AssignmentOperator :=
  [assign, plusAssign, minusAssign, timesAssign, divideAssign, remainderAssign, bitAndAssign,
    bitOrAssign, bitXorAssign, leftShiftAssign, rightShiftSignedAssign, rightShiftUnsignedAssign]

/-- The name of an operator in messages. -/
def name : AssignmentOperator → String
  | assign => "Assign"
  | plusAssign => "PlusAssign"
  | minusAssign => "MinusAssign"
  | timesAssign => "TimesAssign"
  | divideAssign => "DivideAssign"
  | remainderAssign => "RemainderAssign"
  | bitAndAssign => "BitAndAssign"
  | bitOrAssign => "BitOrAssign"
  | bitXorAssign => "BitXorAssign"
  | leftShiftAssign => "LeftShiftAssign"
  | rightShiftSignedAssign => "RightShiftSignedAssign"
  | rightShiftUnsignedAssign => "RightShiftUnsignedAssign"

/-- The spelling of an operator. -/
def symbol : AssignmentOperator → String
  | assign => "="
  | plusAssign => "+="
  | minusAssign => "-="
  | timesAssign => "*="
  | divideAssign => "/="
  | remainderAssign => "%="
  | bitAndAssign => "&="
  | bitOrAssign => "|="
  | bitXorAssign => "^="
  | leftShiftAssign => "<<="
  | rightShiftSignedAssign => ">>="
  | rightShiftUnsignedAssign => ">>>="

end AssignmentOperator

/-- The types that are written as a keyword. -/
inductive PrimitiveType where
  | boolean | byte | char | short | int | long | float | double | void
  deriving DecidableEq, Repr

namespace PrimitiveType

/-- Every primitive type. -/
def all : List PrimitiveType :=
  [boolean, byte, char, short, int, long, float, double, void]

/-- The keyword of a primitive type. -/
def keyword : PrimitiveType → String
  | boolean => "boolean"
  | byte => "byte"
  | char => "char"
  | short => "short"
  | int => "int"
  | long => "long"
  | float => "float"
  | double => "double"
  | void => "void"

/-- The name of a primitive type in messages. -/
def name (primitive : PrimitiveType) : String :=
  primitive.keyword.capitalize

/-- The primitive type of a keyword. -/
def ofKeyword? (text : String) : Option PrimitiveType :=
  all.find? fun primitive => primitive.keyword == text

end PrimitiveType

end JavaFold
