import JavaFold.Command.Pipeline

/-!
# Running the program

What the program prints and the code it exits with, given its command line and access to files.
-/

namespace JavaFold

/-- The outcome of a run. -/
structure Outcome where
  /-- The code that the program exits with. -/
  exitCode : UInt32
  /-- What is printed. -/
  output : String
  /-- What is printed about errors. -/
  errors : String
  deriving DecidableEq, Repr

namespace Outcome

/-- A run that went well. -/
def success (output : String) : Outcome := ⟨0, output, ""⟩

/-- A run that failed. An error of the command line is followed by a summary of it. -/
def failure (error : CommandError) : Outcome where
  exitCode := 1
  output := ""
  errors :=
    "error: " ++ error.message ++ "\n" ++
      if error.isUsage then "\n" ++ Command.usage ++ "\n" else ""

end Outcome

/-- Run a command. -/
def Command.run {m : Type → Type} [Monad m] (files : FileAccess m) : Command → m Outcome
  | .listRules => return .success Catalogue.listing
  | .fold options => do
    match ← (foldFile files options).run with
    | .ok _ => return .success ""
    | .error error => return .failure error

/-- Run the program on a command line, the name of the program apart. -/
def run {m : Type → Type} [Monad m] (files : FileAccess m) (arguments : List String) :
    m Outcome :=
  match Command.parse arguments with
  | .ok command => command.run files
  | .error error => return .failure (.usage error)

end JavaFold
