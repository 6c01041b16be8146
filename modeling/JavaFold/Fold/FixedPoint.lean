import JavaFold.Fold.Rule

/-!
# Folding to a fixed point

A round applies every rule once, in order, each to the tree that the one before has left. Rounds are
repeated until one of them changes nothing, and at most a given number of times.

A rule may replace the very node that folding started from. The place of that node is noted before
each rule, and the node is looked up there again after a rule has made rewrites.

The rewrites of a rule are counted over all rounds, in a word of 64 bits. The program stops where
there are more of them.
-/

namespace JavaFold

/-- What folding did. -/
structure Report where
  /-- The node now in the place from which folding started. -/
  root : NodeId
  /-- The number of rounds, the last one, which changed nothing, included. -/
  rounds : Nat
  /-- The name of each rule and the number of its rewrites, in the order of the rules. -/
  rewrites : List (String × Nat)
  deriving DecidableEq, Repr

namespace Report

/-- The number of rewrites of all rules. -/
def total (report : Report) : Nat :=
  report.rewrites.foldr (fun (_, count) total => count + total) 0

/-- The number of rewrites of one rule, if it was among the rules. -/
def rewritesFor? (report : Report) (name : String) : Option Nat :=
  report.rewrites.findSome? fun (rule, count) => if rule = name then some count else none

end Report

/-- The place of a node in an arena. -/
inductive Anchor where
  /-- The root. -/
  | root
  /-- A slot of a parent. -/
  | slot (parent : NodeId) (location : Location)
  deriving DecidableEq, Repr

namespace Anchor

/-- The place of a node. -/
def ofNode (arena : Arena) (id : NodeId) : Except Violation Anchor := do
  match ← arena.locationOf id, arena.parent? id with
  | some location, some parent => return .slot parent location
  | _, _ => return .root

/-- The node in a place. -/
def resolve (arena : Arena) : Anchor → Except Violation NodeId
  | root => return arena.root
  | slot parent location => arena.resolve parent location

end Anchor

namespace Rule

/-- The most rewrites that can be counted, the largest number in a word of 64 bits. -/
def maxCount : Nat := 18446744073709551615

/-- The rewrites of a rule together with those of one more call. Sums are checked, and one that does
not fit stops the program. -/
def credit (total count : Nat) : Except Violation Nat :=
  if maxCount < total + count then .error (.tooManyRewrites (total + count))
  else .ok (total + count)

/-- Apply a rule under a node. Gives the rewrites of the rule up to now, whether some were made in
this call, and the node that is afterwards in the place of the first one. -/
def apply (rule : Rule) (total : Nat) (root : NodeId) : Rewrite (Nat × Bool × NodeId) := do
  let anchor ← Rewrite.ofExcept (Anchor.ofNode (← get) root)
  let count ← rule.rewrite root
  if 0 < count then
    let total ← Rewrite.ofExcept (credit total count)
    return (total, true, ← Rewrite.ofExcept (anchor.resolve (← get)))
  else
    return (total, false, root)

/-- Apply every rule once, in order, given the rewrites of each up to now. Gives them with those of
this round, and whether there were any. -/
def round : List (Rule × Nat) → NodeId → Rewrite (List Nat × Bool × NodeId)
  | [], root => return ([], false, root)
  | (rule, total) :: entries, root => do
    let (total, changed, root) ← rule.apply total root
    let (totals, later, root) ← round entries root
    return (total :: totals, changed || later, root)

/-- Repeat rounds until one changes nothing, at most `left` times more. The rounds before are given
with the rewrites of each rule in them. -/
def roundsFrom (rules : List Rule) : (left done : Nat) → List Nat → NodeId → Rewrite Report
  | 0, done, _, _ => throw (.noFixedPoint done)
  | left + 1, done, totals, root => do
    let (totals, changed, root) ← round (rules.zip totals) root
    if changed then
      roundsFrom rules left (done + 1) totals root
    else
      return ⟨root, done + 1, (rules.map Rule.name).zip totals⟩

/-- Fold the tree under a node until no rule changes it, in at most `maxRounds` rounds. -/
def toFixedPoint (rules : List Rule) (maxRounds : Nat) (root : NodeId) : Rewrite Report := do
  Rewrite.ofExcept ((← get).checkFoldRoot root)
  roundsFrom rules maxRounds 0 (rules.map fun _ => 0) root

/-- The number of rounds allowed unless another one is asked for. -/
def defaultMaxRounds : Nat := 64

end Rule

end JavaFold
