import JavaFold.Fold.Rule

/-!
# Parentheses around literals

The rule replaces a parenthesized literal by the bare literal. Nodes are taken children first, so
that inner parentheses are gone before outer ones are looked at, and one pass removes any number of
nested parentheses.
-/

namespace JavaFold.ParenthesizedLiteral

/-- Put a node in the place of another one: into its slot, or in its place as the root. -/
def splice (old new : NodeId) : Edit Unit := do
  match ← Edit.ofExcept ((← get).locationOf old) with
  | some _ => Edit.replaceChild old new
  | none => Edit.replaceRoot new

/-- Replace a node by a copy of the literal it encloses, if it is a parenthesized literal. Gives the
number of rewrites, which is one or none. -/
def collapse (id : NodeId) : Edit Nat := do
  let arena ← get
  match (arena.node? id).map Node.kind with
  | some (.parenthesizedExpression expression) =>
    let inner ← Edit.ofExcept (arena.require expression)
    if inner.tag.isLiteral then
      let literal ← Edit.copySubtree expression
      splice id literal
      return 1
    else
      return 0
  | _ => return 0

/-- Replace every parenthesized literal under a node. -/
def rewrite (root : NodeId) : Edit Nat := do
  Edit.ofExcept ((← get).checkFoldRoot root)
  Edit.walk collapse root

/-- The name of the rule. -/
def name : String := "parenthesized-literal"

/-- The rule that removes parentheses around literals. -/
def rule : Rule := ⟨name, fun root => Rewrite.ofEdit (rewrite root)⟩

end JavaFold.ParenthesizedLiteral
