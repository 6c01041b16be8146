import JavaFold.Grammar.Statement

/-!
# Declarations and source files

Members, types, imports and the whole source file.
-/

namespace JavaFold.Grammar

variable {σ τ : Type} [Reading σ] [Builder σ τ]

/-- A parameter of a method. -/
def parameter : Parser σ τ := do
  let start ← currentSpan
  let modifiers ← modifiers
  let type ← type false
  let varargs ← eatPunctuator .ellipsis
  let name ← simpleName
  node start (.singleVariableDeclaration modifiers varargs type name)

/-- Parameters in parentheses. -/
def parameters : Parser σ (List τ) := do
  let _ ← expectPunctuator .lparen
  let parameters ← if ← checkPunctuator .rparen then pure [] else commaSeparated parameter
  let _ ← expectPunctuator .rparen
  return parameters

/-- Whether the next token is an identifier with the given text. -/
def checkIdentifier (text : String) : Parser σ Bool := do
  let token ← current
  return token.kind == .identifier && token.text == text

/-- The rest of a method or constructor, from its parameters on. -/
def methodRest (modifiers : Modifiers) (constructor : Bool) (returnType name : τ)
    (start : Span) : Parser σ τ := do
  let parameters ← parameters
  if ← checkIdentifier "throws" then unsupported .throwsClause
  else
    let body ← if ← eatPunctuator .semicolon then pure (Builder.absent σ) else block statement
    node start (.methodDeclaration modifiers constructor returnType name parameters body)

/-- One more member of a type, a stray semicolon being skipped. -/
def memberStep (member : Parser σ τ) (members : List τ) :
    Parser σ (Option (List τ)) := do
  if ← checkPunctuator .rbrace then return none
  else if ← check .endOfFile then unexpected (.punctuator .rbrace)
  else if ← eatPunctuator .semicolon then return some members
  else return some (members ++ [← member])

/-- A class or an interface, the modifiers before it having been taken. -/
def typeDeclaration (member : Parser σ τ) (modifiers : Modifiers) (start : Span) :
    Parser σ τ := do
  let interface ← eatKeyword .interfaceWord
  if !interface then
    let _ ← expectKeyword .classWord
  let name ← simpleName
  let superclass ← if ← eatKeyword .extendsWord then type false else pure (Builder.absent σ)
  if ← checkIdentifier "implements" then unsupported .implementsClause
  else
    let _ ← expectPunctuator .lbrace
    let members ← repeating (memberStep member) []
    let _ ← expectPunctuator .rbrace
    node start (.typeDeclaration modifiers interface name superclass members)

/-- A method or a field, from its type on. -/
def typedMember (modifiers : Modifiers) (start : Span) : Parser σ τ := do
  let type ← type true
  if (← kindAt 1) == .punctuator .lparen then
    let name ← simpleName
    methodRest modifiers false type name start
  else
    let fragments ← fragments
    let _ ← expectPunctuator .semicolon
    node start (.fieldDeclaration modifiers type fragments)

/-- A member of a type, given the production of the members of a type in it. -/
def memberDeclaration (member : Parser σ τ) : Parser σ τ := do
  let start ← currentSpan
  let modifiers ← modifiers
  match ← currentKind with
  | .keyword .classWord | .keyword .interfaceWord => typeDeclaration member modifiers start
  | .punctuator .lbrace => unsupported .initializerBlock
  | kind =>
    if kind == .identifier && (← kindAt 1) == .punctuator .lparen then
      let name ← simpleName
      methodRest modifiers true (Builder.absent σ) name start
    else
      typedMember modifiers start

/-- A member nested at most `depth` types deep. -/
def memberUpTo : Nat → Parser σ τ
  | 0 => unexpected .type
  | depth + 1 => memberDeclaration (memberUpTo depth)

/-- A member of a type. -/
def member : Parser σ τ :=
  bounded memberUpTo

/-- An import. -/
def importDeclaration : Parser σ τ := do
  let start := (← expectKeyword .importWord).span
  let isStatic ← eatKeyword (.modifier .staticFlag)
  let name ← name
  let onDemand := (← checkPunctuator .dot) && (← kindAt 1) == .punctuator .star
  if onDemand then
    let _ ← advance
    let _ ← advance
  let _ ← expectPunctuator .semicolon
  node start (.importDeclaration isStatic onDemand name)

/-- The package of a source file, if it names one. -/
def package : Parser σ τ := do
  if ← check (.keyword .packageWord) then
    let start := (← advance).span
    let name ← name
    let _ ← expectPunctuator .semicolon
    node start (.packageDeclaration name)
  else
    return Builder.absent σ

/-- One more import of a source file. -/
def importStep (imports : List τ) : Parser σ (Option (List τ)) := do
  if ← check (.keyword .importWord) then return some (imports ++ [← importDeclaration])
  else return none

/-- One more type of a source file, a stray semicolon being skipped. -/
def typeStep (types : List τ) : Parser σ (Option (List τ)) := do
  if ← check .endOfFile then return none
  else if ← eatPunctuator .semicolon then return some types
  else
    let start ← currentSpan
    let modifiers ← modifiers
    return some (types ++ [← typeDeclaration member modifiers start])

/-- A source file. -/
def compilationUnit : Parser σ τ := do
  let start ← currentSpan
  let package ← package
  let imports ← repeating importStep []
  let types ← repeating typeStep []
  node start (.compilationUnit package imports types)

end JavaFold.Grammar
