import JavaFold.Grammar.Expression

/-!
# Statements

Blocks, control flow and local declarations. As with expressions, a production is given the
production of inner statements as an argument, and `statementUpTo` ties the knot.
-/

namespace JavaFold.Grammar

variable {σ τ : Type} [Reading σ] [Builder σ τ]

/-- An initial value, if an equals sign follows. -/
def initializer : Parser σ τ := do
  if ← eatPunctuator .eq then
    if ← checkPunctuator .lbrace then unsupported .arrayInitializer else expression
  else
    return Builder.absent σ

/-- One declared variable with its initial value. -/
def fragment : Parser σ τ := do
  let start ← currentSpan
  let name ← simpleName
  let initializer ← initializer
  node start (.variableDeclarationFragment name initializer)

/-- The variables of a declaration. -/
def fragments : Parser σ (List τ) :=
  commaSeparated fragment

/-- A local declaration without its closing semicolon. -/
def localDeclaration : Parser σ τ := do
  let start ← currentSpan
  let modifiers ← modifiers
  let type ← type false
  let fragments ← fragments
  node start (.variableDeclarationStatement modifiers type fragments)

/-- A condition in parentheses. -/
def condition : Parser σ τ := do
  let _ ← expectPunctuator .lparen
  let expression ← expression
  let _ ← expectPunctuator .rparen
  return expression

/-- One more statement of a block. -/
def blockStep (statement : Parser σ τ) (statements : List τ) :
    Parser σ (Option (List τ)) := do
  if ← checkPunctuator .rbrace then return none
  else if ← check .endOfFile then unexpected (.punctuator .rbrace)
  else return some (statements ++ [← statement])

/-- Statements between braces. -/
def block (statement : Parser σ τ) : Parser σ τ := do
  let start := (← expectPunctuator .lbrace).span
  let statements ← repeating (blockStep statement) []
  let _ ← expectPunctuator .rbrace
  node start (.block statements)

/-- What a `for` loop starts with: a declaration, expressions or nothing. -/
def forInitializers : Parser σ (List τ) := do
  if ← atDeclaration then
    let declaration ← localDeclaration
    if ← checkPunctuator .colon then unsupported .enhancedFor else return [declaration]
  else if ← checkPunctuator .semicolon then
    return []
  else
    commaSeparated expression

/-- An expression, or nothing before a punctuator. -/
def optionalExpression (stop : Punctuator) : Parser σ τ := do
  if ← checkPunctuator stop then return Builder.absent σ else expression

/-- Expressions with commas between them, or nothing before a punctuator. -/
def optionalExpressions (stop : Punctuator) : Parser σ (List τ) := do
  if ← checkPunctuator stop then return [] else commaSeparated expression

/-- A `for` loop. -/
def forStatement (statement : Parser σ τ) : Parser σ τ := do
  let start := (← expectKeyword .forWord).span
  let _ ← expectPunctuator .lparen
  let initializers ← forInitializers
  let _ ← expectPunctuator .semicolon
  let condition ← optionalExpression .semicolon
  let _ ← expectPunctuator .semicolon
  let updaters ← optionalExpressions .rparen
  let _ ← expectPunctuator .rparen
  let body ← statement
  node start (.forStatement initializers condition updaters body)

/-- A conditional statement. -/
def ifStatement (statement : Parser σ τ) : Parser σ τ := do
  let start := (← expectKeyword .ifWord).span
  let condition ← condition
  let thenStatement ← statement
  let elseStatement ← if ← eatKeyword .elseWord then statement else pure (Builder.absent σ)
  node start (.ifStatement condition thenStatement elseStatement)

/-- A loop whose condition comes first. -/
def whileStatement (statement : Parser σ τ) : Parser σ τ := do
  let start := (← expectKeyword .whileWord).span
  let condition ← condition
  let body ← statement
  node start (.whileStatement condition body)

/-- A loop whose condition comes last. -/
def doStatement (statement : Parser σ τ) : Parser σ τ := do
  let start := (← expectKeyword .doWord).span
  let body ← statement
  let _ ← expectKeyword .whileWord
  let condition ← condition
  let _ ← expectPunctuator .semicolon
  node start (.doStatement body condition)

/-- A return with or without a value. -/
def returnStatement : Parser σ τ := do
  let start := (← expectKeyword .returnWord).span
  let value ← optionalExpression .semicolon
  let _ ← expectPunctuator .semicolon
  node start (.returnStatement value)

/-- A throw. -/
def throwStatement : Parser σ τ := do
  let start := (← expectKeyword .throwWord).span
  let value ← expression
  let _ ← expectPunctuator .semicolon
  node start (.throwStatement value)

/-- A statement that is one keyword. -/
def keywordStatement (keyword : Keyword) (kind : NodeKind String τ) :
    Parser σ τ := do
  let start := (← expectKeyword keyword).span
  let _ ← expectPunctuator .semicolon
  node start kind

/-- A statement that no keyword introduces: a local declaration or an expression. -/
def plainStatement : Parser σ τ := do
  let start ← currentSpan
  if ← atDeclaration then
    let declaration ← localDeclaration
    let _ ← expectPunctuator .semicolon
    return declaration
  else
    let expression ← expression
    let _ ← expectPunctuator .semicolon
    node start (.expressionStatement expression)

/-- A statement, given the production of the statements in it. -/
def statementStep (statement : Parser σ τ) : Parser σ τ := do
  match ← currentKind with
  | .punctuator .lbrace => block statement
  | .punctuator .semicolon => leaf .emptyStatement
  | .keyword .ifWord => ifStatement statement
  | .keyword .whileWord => whileStatement statement
  | .keyword .doWord => doStatement statement
  | .keyword .forWord => forStatement statement
  | .keyword .returnWord => returnStatement
  | .keyword .breakWord => keywordStatement .breakWord .breakStatement
  | .keyword .continueWord => keywordStatement .continueWord .continueStatement
  | .keyword .throwWord => throwStatement
  | .keyword .classWord | .keyword .interfaceWord => unsupported .localTypeDeclaration
  | _ => plainStatement

/-- A statement nested at most `depth` deep. An inner statement stands after a token of the outer
one, so a depth of the number of tokens is never exhausted. -/
def statementUpTo : Nat → Parser σ τ
  | 0 => unexpected .expression
  | depth + 1 => statementStep (statementUpTo depth)

/-- A statement. -/
def statement : Parser σ τ :=
  bounded statementUpTo

end JavaFold.Grammar
