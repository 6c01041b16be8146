import JavaFold.Grammar.Declaration
import JavaFold.Token.Lexer

/-!
# Reading a source text

A source text is read whole, as a source file or as a single expression.
-/

namespace JavaFold

/-- What a source text is read as. -/
inductive Goal where
  /-- A source file. -/
  | compilationUnit
  /-- A single expression. -/
  | expression
  deriving DecidableEq, Repr

namespace Goal

/-- The production of a goal. -/
def production {σ τ : Type} [Reading σ] [Builder σ τ] : Goal → Parser σ τ
  | compilationUnit => Grammar.compilationUnit
  | expression => Grammar.expression

end Goal

/-- Read a goal up to the end of the source. -/
def Grammar.whole {σ τ : Type} [Reading σ] [Builder σ τ] (goal : Goal) : Parser σ τ := do
  let top ← goal.production
  if ← check .endOfFile then return top else unexpected .endOfFile

/-- The tree that a list of tokens reads as. The last token marks the end of the source. -/
def parseTokens (goal : Goal) (tokens : List Token) : Except ParseError SourceTree :=
  match (Grammar.whole goal).run (Cursor.ofTokens tokens) with
  | .ok tree _ => .ok tree
  | .error error _ => .error error

/-- The tree that a source text reads as. Outside ASCII, `wide` tells which characters belong to
identifiers. -/
def parseTreeWith (wide : Char → Bool) (goal : Goal) (source : String) :
    Except ParseError SourceTree := do
  parseTokens goal (← tokenizeWith wide source)

end JavaFold
