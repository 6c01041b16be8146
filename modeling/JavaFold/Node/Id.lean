/-!
# Node handles

A node is referred to by its place in the arena that holds it. One handle is set aside to say that
there is no node.
-/

namespace JavaFold

/-- A handle to a node of an arena. -/
structure NodeId where
  /-- The number of nodes that were allocated before the node. -/
  index : Nat
  deriving DecidableEq, Repr

namespace NodeId

/-- The largest index a handle can have. -/
def maxIndex : Nat := 4294967295

/-- The handle of no node: an empty slot, a missing parent, a tree without a root. -/
def absent : NodeId := ⟨maxIndex⟩

instance : Inhabited NodeId := ⟨absent⟩

/-- Whether a handle can refer to a node. -/
def isPresent (id : NodeId) : Bool :=
  id != absent

/-- The handle itself, unless it is the one of no node. -/
def present? (id : NodeId) : Option NodeId :=
  if id.isPresent then some id else none

/-- The handle of what may be missing. -/
def ofOption : Option NodeId → NodeId
  | some id => id
  | none => absent

/-- A handle in messages, such as `#3`. -/
def text (id : NodeId) : String :=
  if id.isPresent then s!"#{id.index}" else "#<none>"

/-- A handle with the name of its type, such as `NodeId(3)`. -/
def name (id : NodeId) : String :=
  if id.isPresent then s!"NodeId({id.index})" else "NodeId::INVALID"

@[simp] theorem isPresent_absent : absent.isPresent = false := rfl

theorem isPresent_iff {id : NodeId} : id.isPresent = true ↔ id ≠ absent := by
  simp [isPresent]

end NodeId

end JavaFold
