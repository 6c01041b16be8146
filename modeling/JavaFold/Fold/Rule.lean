import JavaFold.Arena.Edit

/-!
# Folding rules

A rule rewrites the tree under a node in place and says how many rewrites it made. The node has to
be the root or attached to a parent, so that there is a place for what it is rewritten to.
-/

namespace JavaFold

/-- Why folding was given up. -/
inductive FoldError where
  /-- A change of the arena was refused. -/
  | invariant (violation : Violation)
  /-- Rules were still rewriting after the last round allowed. -/
  | noFixedPoint (rounds : Nat)
  /-- There is no rule of the name. -/
  | unknownRule (name : String)
  deriving DecidableEq, Repr

/-- The wording of a failure. -/
def FoldError.message : FoldError → String
  | invariant violation => violation.message
  | noFixedPoint rounds => s!"no fixed point after {rounds} rounds"
  | unknownRule name => s!"unknown folding rule `{name}`"

/-- A rewriting of an arena that gives an `α` or fails; what was written before a failure stays. -/
abbrev Rewrite := EStateM FoldError Arena

namespace Rewrite

/-- The outcome of a check, as a rewriting of nothing. -/
def ofExcept {α : Type} : Except Violation α → Rewrite α
  | .ok value => return value
  | .error violation => throw (.invariant violation)

/-- A change as a rewriting. -/
def ofEdit {α : Type} (edit : Edit α) : Rewrite α := fun arena =>
  match edit.run arena with
  | .ok value arena => .ok value arena
  | .error violation arena => .error (.invariant violation) arena

end Rewrite

/-- Refuse a node that rules cannot start from: it has to be the root or attached to a parent. -/
def Arena.checkFoldRoot (arena : Arena) (root : NodeId) : Except Violation Unit := do
  let _ ← arena.locationOf root

/-- A rewriting of the tree under a node. -/
structure Rule where
  /-- The name by which the rule is referred to. -/
  name : String
  /-- Make every rewrite under a node and count them. A count is a word of 64 bits; one that is too
  large for it cannot be added to others. -/
  rewrite : NodeId → Rewrite Nat

/-- Make every rewrite under a node and say whether there was any. -/
def Rule.fold (rule : Rule) (root : NodeId) : Rewrite Bool :=
  return 0 < (← rule.rewrite root)

end JavaFold
