import JavaFold.Fold.ParenthesizedLiteral

/-!
# The known rules

Rules are listed by name with a description, in the order in which they are applied. Any of them can
be left out by name.
-/

namespace JavaFold

/-- An entry of the list of rules. -/
structure RuleEntry where
  /-- The name of the rule. -/
  name : String
  /-- What the rule does. -/
  description : String
  /-- The rule itself. -/
  rule : Rule

namespace Catalogue

/-- Every known rule, in the order of application. -/
def entries : List RuleEntry :=
  [⟨ParenthesizedLiteral.name, "replace a parenthesized literal with the bare literal",
    ParenthesizedLiteral.rule⟩]

/-- The names of the known rules. -/
def names : List String :=
  entries.map RuleEntry.name

/-- The entry of a name. -/
def find? (name : String) : Option RuleEntry :=
  entries.find? fun entry => entry.name == name

/-- The known rules without the disabled ones, each of which has to be known. -/
def rulesWithout (disabled : List String) : Except FoldError (List Rule) :=
  match disabled.find? fun name => (find? name).isNone with
  | some unknown => .error (.unknownRule unknown)
  | none =>
    .ok ((entries.filter fun entry => !disabled.contains entry.name).map RuleEntry.rule)

/-- The longest name of a rule, in characters. -/
def nameWidth : Nat :=
  (names.map String.length).foldl max 0

/-- One line for each rule: its name, filled up to the longest one, and its description. -/
def listing : String :=
  String.join (entries.map fun entry =>
    entry.name.pushn ' ' (nameWidth - entry.name.length) ++ "  " ++ entry.description ++ "\n")

end Catalogue

end JavaFold
