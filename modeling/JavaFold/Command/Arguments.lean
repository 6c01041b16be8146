import JavaFold.Fold.FixedPoint

/-!
# The command line

Each argument is read on its own, in any order: a flag, an option with a value, or a path. The
command is then put together from all of them. The first argument that cannot be read decides the
error, before the number of paths is looked at.
-/

namespace JavaFold

/-- Why a command line was refused. -/
inductive UsageError where
  /-- The limit of rounds is not a positive number of 64 bits. -/
  | invalidRounds (value : String)
  /-- There is no such option. -/
  | unknownOption (option : String)
  /-- Paths were given together with the request for the list of rules. -/
  | listingWithPaths
  /-- There are more or fewer than two paths. -/
  | wrongPathCount (count : Nat)
  deriving DecidableEq, Repr

/-- The wording of a refusal. -/
def UsageError.message : UsageError → String
  | invalidRounds value => s!"--max-rounds expects a positive integer, got '{value}'"
  | unknownOption option => s!"unknown option '{option}'"
  | listingWithPaths => "--list-rules does not take file arguments"
  | wrongPathCount count => s!"expected 2 file arguments, got {count}"

/-- One argument of the command line. -/
inductive Argument where
  /-- The request for the list of rules. -/
  | listRules
  /-- The request to report progress. -/
  | verbose
  /-- A limit of rounds. -/
  | maxRounds (rounds : Nat)
  /-- A rule to be left out. -/
  | disable (rule : String)
  /-- The path of a file. -/
  | path (file : String)
  deriving DecidableEq, Repr

namespace Argument

/-- The largest limit of rounds, which is the largest number of 64 bits. -/
def maxCount : Nat := 18446744073709551615

/-- The number that a row of decimal digits stands for. -/
def decimal (digits : List Char) : Nat :=
  digits.foldl (fun value digit => 10 * value + (digit.toNat - '0'.toNat)) 0

/-- The characters after a plus sign, if there is one. -/
def withoutPlus : List Char → List Char
  | '+' :: rest => rest
  | chars => chars

/-- A positive number of 64 bits in decimal digits, after a plus sign or without one. -/
def positiveCount? (text : String) : Option Nat :=
  let digits := withoutPlus text.toList
  let value := decimal digits
  if digits.all Char.isDigit && 0 < value && value ≤ maxCount then some value else none

/-- What follows the name of an option in an argument. -/
def value? (option text : String) : Option String :=
  (option.toList.isPrefixOf? text.toList).map String.ofList

/-- Read an argument. A single dash is a path. -/
def parse (text : String) : Except UsageError Argument :=
  if text = "--list-rules" then return listRules
  else if text = "--verbose" ∨ text = "-v" then return verbose
  else if let some value := value? "--max-rounds=" text then
    match positiveCount? value with
    | some rounds => return maxRounds rounds
    | none => throw (.invalidRounds value)
  else if let some rule := value? "--disable=" text then return disable rule
  else if text ≠ "-" ∧ text.toList.head? = some '-' then throw (.unknownOption text)
  else return path text

/-- The limit of rounds in an argument. -/
def maxRounds? : Argument → Option Nat
  | maxRounds rounds => some rounds
  | _ => none

/-- The rule that an argument leaves out. -/
def disabled? : Argument → Option String
  | disable rule => some rule
  | _ => none

/-- The path in an argument. -/
def path? : Argument → Option String
  | path file => some file
  | _ => none

end Argument

/-- How a file is to be folded. -/
structure FoldOptions where
  /-- The path of the file to be read. -/
  input : String
  /-- The path of the file to be written. -/
  output : String
  /-- The largest number of rounds. -/
  maxRounds : Nat
  /-- The names of the rules to be left out. -/
  disabled : List String
  /-- Whether progress is to be reported. -/
  verbose : Bool
  deriving DecidableEq, Repr

/-- What the program is asked to do. -/
inductive Command where
  /-- Print the list of rules. -/
  | listRules
  /-- Fold a file. -/
  | fold (options : FoldOptions)
  deriving DecidableEq, Repr

namespace Command

/-- Put a command together. Of several limits of rounds the last one holds. -/
def ofArguments (arguments : List Argument) : Except UsageError Command :=
  let paths := arguments.filterMap Argument.path?
  if arguments.contains .listRules then
    if paths.isEmpty then return listRules else throw .listingWithPaths
  else
    match paths with
    | [input, output] => return fold {
        input, output
        maxRounds := (arguments.filterMap Argument.maxRounds?).getLastD Rule.defaultMaxRounds
        disabled := arguments.filterMap Argument.disabled?
        verbose := arguments.contains .verbose }
    | _ => throw (.wrongPathCount paths.length)

/-- Read a command line, the name of the program apart. -/
def parse (texts : List String) : Except UsageError Command := do
  ofArguments (← texts.mapM Argument.parse)

/-- The summary of the command line that follows an error in it. -/
def usage : String :=
  "Usage: jfold <input.java> <output.java> [options]\n" ++
  "       jfold --list-rules\n" ++
  "\n" ++
  "Options:\n" ++
  "  --max-rounds=<n>   Round cap for the fixed-point driver (default: 64)\n" ++
  "  --disable=<rule>   Leave a folding rule out (repeatable)\n" ++
  "  -v, --verbose      Log folding progress to stderr\n" ++
  "  --list-rules       Print the available folding rules"

end Command

end JavaFold
