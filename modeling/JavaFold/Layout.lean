import JavaFold.Tree

/-!
# Writing trees as source text

A tree is laid out as a sequence of marks: the texts of its tokens and the blanks between them. The
layout is fixed: one member or statement on a line, four spaces for each level of nesting, single
spaces around infix operators. Parentheses are written for parenthesized expressions only, so the
shape of the tree decides what the text says. A single slot that must not be empty and is leaves a
hole, and a layout with a hole has no text.
-/

namespace JavaFold

/-- A piece of a layout. -/
inductive Mark where
  /-- The text of a token. -/
  | text (written : String)
  /-- One space. -/
  | space
  /-- The end of a line. -/
  | newline
  /-- The spaces before a line at a level of nesting. -/
  | indent (level : Nat)
  /-- A child that is missing. -/
  | hole
  deriving DecidableEq, Repr

namespace Mark

/-- The number of spaces for each level of nesting. -/
def indentWidth : Nat := 4

/-- What a mark stands for in a text. -/
def written? : Mark → Option String
  | .text written => some written
  | space => some " "
  | newline => some "\n"
  | indent level => some ("".pushn ' ' (level * indentWidth))
  | hole => none

/-- The text of a layout, if it has no hole. -/
def render? (marks : List Mark) : Option String :=
  (marks.mapM written?).map String.join

end Mark

/-- A text closed by exactly one line end, the empty text being left alone. -/
def endWithNewline (text : String) : String :=
  if text.isEmpty then ""
  else String.ofList (text.toList.reverse.dropWhile (· = '\n')).reverse ++ "\n"

/-- How a child is written in its place. -/
inductive Form where
  /-- As it is. -/
  | plain
  /-- As a line at the top of a source file, which only a package or an import can be. -/
  | header
  /-- As a member, on lines of its own. -/
  | member
  /-- As a statement, on a line of its own. -/
  | line
  /-- As a parameter, which nothing else can be. -/
  | parameter
  /-- As a declared variable, which nothing else can be. -/
  | fragment
  /-- As the start of a `for` loop, where a declaration has no semicolon of its own. -/
  | initializer
  deriving DecidableEq, Repr

namespace Form

/-- The marks of a child in its place, given its tag and its marks on its own. -/
def place (form : Form) (level : Nat) (tag? : Option Tag) (marks : List Mark) : List Mark :=
  match form, tag? with
  | plain, _ => marks
  | header, some .packageDeclaration | header, some .importDeclaration => marks
  | header, _ => []
  | member, some .typeDeclaration | member, some .fieldDeclaration
  | member, some .methodDeclaration => marks
  | member, _ => .indent level :: marks ++ [.newline]
  | line, _ => .indent level :: marks ++ [.newline]
  | parameter, some .singleVariableDeclaration => marks
  | parameter, _ => []
  | fragment, some .variableDeclarationFragment => marks
  | fragment, _ => []
  | initializer, some .variableDeclarationStatement => marks.dropLast
  | initializer, _ => marks

/-- The marks between two children in a row. -/
def separator : Form → List Mark
  | plain | parameter | fragment | initializer => [.text ",", .space]
  | member => [.newline]
  | header | line => []

end Form

namespace Tree

variable {ι : Type}

/-- The operator of an expression that starts with one. -/
def prefixOperator? : Tree ι → Option PrefixOperator
  | .node _ (.prefixExpression operator _) => some operator
  | _ => none

/-- The marks of a set of modifiers, each followed by a space. -/
def modifierMarks (modifiers : Modifiers) : List Mark :=
  modifiers.keywords.flatMap fun keyword => [.text keyword, .space]

/-- The marks between an operator and its operand, which must not run together. -/
def operatorGap (operator : PrefixOperator) (operand : Tree ι) : List Mark :=
  if operand.prefixOperator?.any operator.gluesTo then [.space] else []

mutual
/-- The layout of a tree at a level of nesting. -/
def marks (level : Nat) : Tree ι → List Mark
  | .absent => [.hole]
  | .node _ (.compilationUnit package imports types) =>
    (if package.isPresent then
      Form.header.place level package.tag? (package.marks level) ++ [.newline] else []) ++
      marksList .header level imports ++ (if imports.isEmpty then [] else [.newline]) ++
      marksList .member level types
  | .node _ (.packageDeclaration name) =>
    [.text "package", .space] ++ name.marks level ++ [.text ";", .newline]
  | .node _ (.importDeclaration isStatic onDemand name) =>
    [.text "import", .space] ++ (if isStatic then [.text "static", .space] else []) ++
      name.marks level ++ (if onDemand then [.text ".", .text "*"] else []) ++
      [.text ";", .newline]
  | .node _ (.typeDeclaration modifiers interface name superclass members) =>
    .indent level :: modifierMarks modifiers ++
      [.text (if interface then "interface" else "class"), .space] ++ name.marks level ++
      (if superclass.isPresent then
        [.space, .text "extends", .space] ++ superclass.marks level else []) ++
      [.space, .text "\x7b", .newline] ++ marksList .member (level + 1) members ++
      [.indent level, .text "\x7d", .newline]
  | .node _ (.fieldDeclaration modifiers type fragments) =>
    .indent level :: modifierMarks modifiers ++ type.marks level ++ [.space] ++
      marksList .fragment level fragments ++ [.text ";", .newline]
  | .node _ (.methodDeclaration modifiers _ returnType name parameters body) =>
    .indent level :: modifierMarks modifiers ++
      (if returnType.isPresent then returnType.marks level ++ [.space] else []) ++
      name.marks level ++ [.text "("] ++ marksList .parameter level parameters ++ [.text ")"] ++
      (if body.isPresent then .space :: body.marks level else [.text ";"]) ++ [.newline]
  | .node _ (.singleVariableDeclaration modifiers varargs type name) =>
    modifierMarks modifiers ++ type.marks level ++ (if varargs then [.text "..."] else []) ++
      [.space] ++ name.marks level
  | .node _ (.variableDeclarationFragment name initializer) =>
    name.marks level ++
      (if initializer.isPresent then
        [.space, .text "=", .space] ++ initializer.marks level else [])
  | .node _ (.block statements) =>
    [.text "\x7b", .newline] ++ marksList .line (level + 1) statements ++
      [.indent level, .text "\x7d"]
  | .node _ .emptyStatement => [.text ";"]
  | .node _ (.expressionStatement expression) => expression.marks level ++ [.text ";"]
  | .node _ (.variableDeclarationStatement modifiers type fragments) =>
    modifierMarks modifiers ++ type.marks level ++ [.space] ++
      marksList .fragment level fragments ++ [.text ";"]
  | .node _ (.ifStatement expression thenStatement elseStatement) =>
    [.text "if", .space, .text "("] ++ expression.marks level ++ [.text ")", .space] ++
      thenStatement.marks level ++
      (if elseStatement.isPresent then
        [.space, .text "else", .space] ++ elseStatement.marks level else [])
  | .node _ (.whileStatement expression body) =>
    [.text "while", .space, .text "("] ++ expression.marks level ++ [.text ")", .space] ++
      body.marks level
  | .node _ (.doStatement body expression) =>
    [.text "do", .space] ++ body.marks level ++ [.space, .text "while", .space, .text "("] ++
      expression.marks level ++ [.text ")", .text ";"]
  | .node _ (.forStatement initializers expression updaters body) =>
    [.text "for", .space, .text "("] ++ marksList .initializer level initializers ++
      [.text ";"] ++ (if expression.isPresent then .space :: expression.marks level else []) ++
      [.text ";"] ++
      (if updaters.isEmpty then [] else .space :: marksList .plain level updaters) ++
      [.text ")", .space] ++ body.marks level
  | .node _ (.returnStatement expression) =>
    .text "return" :: (if expression.isPresent then .space :: expression.marks level else []) ++
      [.text ";"]
  | .node _ .breakStatement => [.text "break", .text ";"]
  | .node _ .continueStatement => [.text "continue", .text ";"]
  | .node _ (.throwStatement expression) =>
    [.text "throw", .space] ++ expression.marks level ++ [.text ";"]
  | .node _ (.parenthesizedExpression expression) =>
    .text "(" :: expression.marks level ++ [.text ")"]
  | .node _ (.infixExpression operator leftOperand rightOperand) =>
    leftOperand.marks level ++ [.space, .text operator.symbol, .space] ++
      rightOperand.marks level
  | .node _ (.prefixExpression operator operand) =>
    .text operator.symbol :: operatorGap operator operand ++ operand.marks level
  | .node _ (.postfixExpression operator operand) =>
    operand.marks level ++ [.text operator.symbol]
  | .node _ (.assignment operator leftHandSide rightHandSide) =>
    leftHandSide.marks level ++ [.space, .text operator.symbol, .space] ++
      rightHandSide.marks level
  | .node _ (.conditionalExpression expression thenExpression elseExpression) =>
    expression.marks level ++ [.space, .text "?", .space] ++ thenExpression.marks level ++
      [.space, .text ":", .space] ++ elseExpression.marks level
  | .node _ (.methodInvocation expression name arguments) =>
    (if expression.isPresent then expression.marks level ++ [.text "."] else []) ++
      name.marks level ++ [.text "("] ++ marksList .plain level arguments ++ [.text ")"]
  | .node _ (.fieldAccess expression name) =>
    expression.marks level ++ [.text "."] ++ name.marks level
  | .node _ (.arrayAccess array index) =>
    array.marks level ++ [.text "["] ++ index.marks level ++ [.text "]"]
  | .node _ (.classInstanceCreation type arguments) =>
    [.text "new", .space] ++ type.marks level ++ [.text "("] ++
      marksList .plain level arguments ++ [.text ")"]
  | .node _ (.castExpression type expression) =>
    .text "(" :: type.marks level ++ [.text ")", .space] ++ expression.marks level
  | .node _ (.instanceofExpression leftOperand rightOperand) =>
    leftOperand.marks level ++ [.space, .text "instanceof", .space] ++ rightOperand.marks level
  | .node _ .thisExpression => [.text "this"]
  | .node _ (.simpleName identifier) => [.text identifier]
  | .node _ (.qualifiedName qualifier name) =>
    qualifier.marks level ++ [.text "."] ++ name.marks level
  | .node _ (.booleanLiteral value) => [.text (if value then "true" else "false")]
  | .node _ (.characterLiteral escaped) => [.text escaped]
  | .node _ .nullLiteral => [.text "null"]
  | .node _ (.stringLiteral escaped) => [.text escaped]
  | .node _ (.numberLiteral token) => [.text token]
  | .node _ (.typeLiteral type) => type.marks level ++ [.text ".", .text "class"]
  | .node _ (.primitiveType primitive) => [.text primitive.keyword]
  | .node _ (.simpleType name) => name.marks level
  | .node _ (.arrayType componentType) =>
    componentType.marks level ++ [.text "[", .text "]"]

/-- The layout of trees in a row, each written in its place. -/
def marksList (form : Form) (level : Nat) : List (Tree ι) → List Mark
  | [] => []
  | tree :: trees =>
    form.place level tree.tag? (tree.marks level) ++
      (if trees.isEmpty then [] else form.separator) ++ marksList form level trees
end

/-- The text of a tree on its own, unless a child is missing. -/
def text? (tree : Tree ι) : Option String :=
  Mark.render? (tree.marks 0)

/-- The text of a whole tree, unless a child is missing: a source file is closed by one line end,
and no tree gives no text. -/
def render? (tree : Tree ι) : Option String :=
  match tree with
  | .absent => some ""
  | .node _ (.compilationUnit ..) => tree.text?.map endWithNewline
  | .node .. => tree.text?

end Tree

end JavaFold
