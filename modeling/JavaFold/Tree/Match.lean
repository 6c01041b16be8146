import JavaFold.Arena.Basic
import JavaFold.Node.Attribute

/-!
# Comparing trees

Two trees match if they have the same kinds, the same attributes and matching children at the same
locations. What the nodes carry besides, their handles and source ranges, does not matter. Where two
trees do not match, the first difference in source order is found.
-/

namespace JavaFold

/-- How two nodes differ. -/
inductive Difference where
  /-- Only one of the two nodes is there. -/
  | presence
  /-- The nodes are of different kinds. -/
  | tags (left right : Tag)
  /-- An attribute has different values. -/
  | attributes (left right : Attribute String)
  /-- The nodes have different numbers of children. -/
  | counts (left right : Nat)
  /-- Children of the same rank sit at different locations. -/
  | locations (left right : Location)
  deriving DecidableEq, Repr

/-- The wording of a difference. -/
def Difference.message : Difference → String
  | presence => "one side is absent"
  | tags left right => s!"{left.text} vs {right.text}"
  | attributes left right => s!"{left.title} {left.shown} vs {right.shown}"
  | counts left right => s!"{left} children vs {right}"
  | locations left right => s!"child at `{left.text}` vs `{right.text}`"

/-- Two nodes that differ. -/
structure Mismatch where
  /-- The node on the left. -/
  left : NodeId
  /-- The node on the right. -/
  right : NodeId
  /-- How they differ. -/
  difference : Difference
  deriving DecidableEq, Repr

/-- The wording of a mismatch. -/
def Mismatch.message (mismatch : Mismatch) : String :=
  s!"{mismatch.left.text} vs {mismatch.right.text}: {mismatch.difference.message}"

namespace NodeKind

variable {α : Type}

/-- How two kinds differ before their children are compared: in their tags, or in the first
attribute with different values. -/
def difference? {β : Type} (left : NodeKind String α) (right : NodeKind String β) :
    Option Difference :=
  if left.tag ≠ right.tag then some (.tags left.tag right.tag)
  else (left.attributes.zip right.attributes).findSome? fun (a, b) =>
    if a ≠ b then some (.attributes a b) else none

end NodeKind

/-- The first element of two rows, side by side, at which a comparison finds something. -/
def firstOfBoth {α β γ : Type} (find : α → β → Option γ) (left : List α) (right : List β) :
    Option γ :=
  (left.zip right).findSome? fun (a, b) => find a b

namespace Tree

/-- The first difference between two trees in source order: at a node, the kinds come first, then
the attributes, the number of children, and the children one after the other. -/
def mismatch? : Tree Arena.Stamp → Tree Arena.Stamp → Option Mismatch
  | .node left leftKind, .node right rightKind =>
    match leftKind.difference? rightKind with
    | some difference => some ⟨left.id, right.id, difference⟩
    | none =>
      let leftChildren := leftKind.children
      let rightChildren := rightKind.children
      if leftChildren.length ≠ rightChildren.length then
        some ⟨left.id, right.id, .counts leftChildren.length rightChildren.length⟩
      else
        firstOfBoth (fun ⟨(leftLocation, leftChild), _⟩ (rightLocation, rightChild) =>
          if leftLocation ≠ rightLocation then
            some ⟨left.id, right.id, .locations leftLocation rightLocation⟩
          else leftChild.mismatch? rightChild) leftChildren.attach rightChildren
  | _, _ => none
termination_by left => sizeOf left
decreasing_by
  have h : (leftLocation, leftChild) ∈ leftKind.children := by assumption
  have := NodeKind.sizeOf_lt_of_mem_occupants (NodeKind.mem_occupants_of_mem_children h)
  simp only [Tree.node.sizeOf_spec]
  omega

end Tree

namespace Arena

/-- The first difference between the trees under a node of one arena and a node of another. A handle
that refers to no node matches only such a handle. -/
def mismatch? (leftArena : Arena) (left : NodeId) (rightArena : Arena) (right : NodeId) :
    Option Mismatch :=
  match leftArena.contains left, rightArena.contains right with
  | false, false => none
  | true, true => (leftArena.tree left).mismatch? (rightArena.tree right)
  | _, _ => some ⟨left, right, .presence⟩

/-- Whether the trees under two nodes match. -/
def subtreesMatch (leftArena : Arena) (left : NodeId) (rightArena : Arena) (right : NodeId) :
    Bool :=
  (leftArena.mismatch? left rightArena right).isNone

end Arena

end JavaFold
