import JavaFold.Arena.Source
import JavaFold.Command.Arguments
import JavaFold.Files.Access
import JavaFold.Fold.Catalogue

/-!
# From source file to folded file

A source text is read, folded from its root until no rule changes it, and written again. A file is
folded by way of its text, and nothing is written unless all went well before.
-/

namespace JavaFold

/-- Why the program gave up. -/
inductive CommandError where
  /-- The command line was refused. -/
  | usage (error : UsageError)
  /-- A file could not be read. -/
  | unreadable (path : String) (failure : FileFailure)
  /-- A file could not be written. -/
  | unwritable (path : String) (failure : FileFailure)
  /-- A source text was refused. -/
  | parse (path : String) (position : Position) (error : ParseError)
  /-- Folding was given up. -/
  | fold (error : FoldError)
  deriving DecidableEq, Repr

namespace CommandError

/-- The wording of a failure. -/
def message : CommandError → String
  | usage error => error.message
  | unreadable path failure => s!"cannot read '{path}': {failure.message}"
  | unwritable path failure => s!"cannot write '{path}': {failure.message}"
  | parse path position error => s!"{path}:{position.line}:{position.column}: {error.message}"
  | fold error => error.message

/-- Whether the command line is to blame. -/
def isUsage : CommandError → Bool
  | usage _ => true
  | _ => false

end CommandError

/-- The text of a source file after folding and what folding did. -/
structure Folded where
  /-- The folded text. -/
  text : String
  /-- What folding did. -/
  report : Report
  deriving DecidableEq, Repr

/-- Fold an arena from its root and write it. -/
def Arena.fold (arena : Arena) (rules : List Rule) (maxRounds : Nat) : Except FoldError Folded :=
  match (Rule.toFixedPoint rules maxRounds arena.root).run arena with
  | .ok report arena =>
    match arena.render? with
    | some text => .ok ⟨text, report⟩
    | none => .error (.invariant (.absentNode .absent))
  | .error error _ => .error error

/-- Fold a source text. The path tells where an error was found. -/
def foldSource (source path : String) (options : FoldOptions) : Except CommandError Folded := do
  let arena ← (Arena.parse .compilationUnit source).mapError fun error =>
    .parse path (error.position source) error
  let rules ← (Catalogue.rulesWithout options.disabled).mapError .fold
  (arena.fold rules options.maxRounds).mapError .fold

/-- Fold one file into another, or into itself. -/
def foldFile {m : Type → Type} [Monad m] (files : FileAccess m) (options : FoldOptions) :
    ExceptT CommandError m Report := do
  let source ← ExceptT.mk <|
    return (← files.read options.input).mapError (.unreadable options.input)
  let folded ← ExceptT.mk <| pure <| foldSource source options.input options
  ExceptT.mk <|
    return (← files.write options.output folded.text).mapError (.unwritable options.output)
  return folded.report

end JavaFold
