import JavaFold.Arena.Violation
import JavaFold.Interner
import JavaFold.Node.Slots
import JavaFold.Span
import JavaFold.Tree

/-!
# Arenas

An arena holds nodes in the order of their allocation. A node refers to its children by their
handles, and each child refers back to its parent and to its location there. One parentless node may
be designated as the root; a node that is neither the root nor attached to a parent is detached.
Nodes are never freed.

The tree under a node is what the links describe, taken on its own (`Arena.tree`). Following links
takes at most as many steps as there are nodes.
-/

namespace JavaFold

instance : Occupant NodeId where
  isPresent := NodeId.isPresent

/-! ## Listing children -/

/-- The elements of a list with their locations, counted from an index on. The program stops at an
element whose index does not fit into a location. -/
def Slot.elementsFrom {α : Type} (property : Property) :
    Nat → List α → Except Violation (List (Location × α))
  | _, [] => return []
  | index, child :: rest => do
    if Location.maxIndex < index then throw (.overflow index)
    return (.element property index, child) :: (← elementsFrom property (index + 1) rest)

namespace NodeKind

variable {τ α : Type} [Occupant α]

/-- List the children of a kind at one property: the child in a single slot, if there is one, or
every element of a list. -/
def childSlotsAt (kind : NodeKind τ α) (property : Property) :
    Except Violation (List (Location × α)) :=
  if property.isList then
    match kind.list? property with
    | some children => Slot.elementsFrom property 0 children
    | none => return []
  else
    match kind.slot? property with
    | some child => return if Occupant.isPresent child then [(.single property, child)] else []
    | none => return []

/-- List the children of a kind with their locations, one property after the other. -/
def childSlots (kind : NodeKind τ α) : Except Violation (List (Location × α)) := do
  return (← kind.properties.mapM kind.childSlotsAt).flatten

end NodeKind

/-! ## Nodes -/

/-- The kind of a node in an arena. -/
abbrev ArenaKind := NodeKind Name NodeId

/-- A node of an arena. -/
structure Node where
  /-- The kind of the node with the handles of its children. -/
  kind : ArenaKind
  /-- The part of the source the node was read from. -/
  span : Span
  /-- The node above, absent for the root and for detached nodes. -/
  parent : NodeId
  /-- Where the node sits in its parent. -/
  location : Option Location
  deriving DecidableEq, Repr

/-- The tag of a node. -/
def Node.tag (node : Node) : Tag := node.kind.tag

/-- Nodes with links in both directions. -/
structure Arena where
  /-- The nodes in the order of their allocation. -/
  nodes : Array Node
  /-- The designated root, absent if there is none. -/
  root : NodeId
  /-- The texts of names and literals. -/
  names : Interner
  deriving DecidableEq, Repr

namespace Arena

/-- The arena without nodes. -/
def empty : Arena := ⟨#[], .absent, .initial⟩

instance : Inhabited Arena := ⟨empty⟩

/-- The number of nodes. -/
def size (arena : Arena) : Nat :=
  arena.nodes.size

/-- The node of a handle. -/
def node? (arena : Arena) (id : NodeId) : Option Node :=
  if id.isPresent then arena.nodes[id.index]? else none

/-- Whether a handle refers to a node of the arena. -/
def contains (arena : Arena) (id : NodeId) : Bool :=
  id.isPresent && id.index < arena.size

/-- The node of a handle, which has to be there. -/
def require (arena : Arena) (id : NodeId) : Except Violation Node :=
  match arena.node? id with
  | some node => .ok node
  | none => .error (.absentNode id)

/-- The parent of a node, if it has one. -/
def parent? (arena : Arena) (id : NodeId) : Option NodeId :=
  (arena.node? id).bind fun node => node.parent.present?

/-- The children of a node with their locations, in source order. No node of an arena holds a list
too long for `NodeKind.childSlots`. -/
def children? (arena : Arena) (id : NodeId) : Option (List (Location × NodeId)) :=
  (arena.node? id).map fun node => node.kind.children

/-- Whether a node is neither the root nor attached to a parent. There is no answer for a handle
that refers to no node, unless the root is that handle. -/
def isDetached? (arena : Arena) (id : NodeId) : Option Bool :=
  if id = arena.root then some false
  else (arena.node? id).map fun node => !node.parent.isPresent

/-- The handles met on the way up from a node, itself included, in at most `steps` steps. -/
def ancestryUpTo (arena : Arena) : Nat → NodeId → List NodeId
  | 0, id => [id]
  | steps + 1, id =>
    match arena.parent? id with
    | some parent => id :: arena.ancestryUpTo steps parent
    | none => [id]

/-- A node, its parent, and so on up. -/
def ancestry (arena : Arena) (id : NodeId) : List NodeId :=
  arena.ancestryUpTo arena.size id

/-- Whether a node is another one or lies above it. -/
def isAncestorOrSelf (arena : Arena) (ancestor id : NodeId) : Bool :=
  (arena.ancestry id).contains ancestor

/-- Whether a handle is another one or lies above it. There is no answer for a handle that refers to
no node, unless the two handles are the same. -/
def isAncestorOrSelf? (arena : Arena) (ancestor id : NodeId) : Option Bool :=
  if id = ancestor || arena.contains id then some (arena.isAncestorOrSelf ancestor id) else none

/-- How a node is attached: nowhere if it is the root, at a location if it has a parent. -/
def locationOf (arena : Arena) (id : NodeId) : Except Violation (Option Location) := do
  let node ← arena.require id
  if id = arena.root then return none
  else if !node.parent.isPresent then throw (.detached id node.tag)
  else
    match node.location with
    | some location => return some location
    | none => throw (.missingLocation id node.tag node.parent)

/-- What a node holds at a location; an empty single slot holds no node. -/
def resolve (arena : Arena) (parent : NodeId) (location : Location) : Except Violation NodeId := do
  let node ← arena.require parent
  match node.kind.get? location with
  | some child => return child
  | none => throw (.unsupportedLocation parent node.tag location)

/-- The parent and the location of an attached node, which its parent has to hold there. -/
def attachedSlot (arena : Arena) (id : NodeId) : Except Violation (NodeId × Location) := do
  let node ← arena.require id
  match ← arena.locationOf id with
  | none => throw (.rootHasNoSlot id node.tag)
  | some location =>
    if (← arena.resolve node.parent location) = id then return (node.parent, location)
    else throw (.slotMismatch node.parent location id)

/-- What a node of a tree remembers of its arena. -/
structure Stamp where
  /-- The handle of the node. -/
  id : NodeId
  /-- The part of the source the node was read from. -/
  span : Span
  deriving DecidableEq, Repr

/-- The tree under a node down to the given depth. -/
def treeUpTo (arena : Arena) : Nat → NodeId → Tree Stamp
  | 0, _ => .absent
  | depth + 1, id =>
    match arena.node? id with
    | some node => .node ⟨id, node.span⟩ (node.kind.map arena.names.lookup (arena.treeUpTo depth))
    | none => .absent

/-- The tree under a node. -/
def tree (arena : Arena) (id : NodeId) : Tree Stamp :=
  arena.treeUpTo arena.size id

/-- The nodes under a node, itself included, parents before children. -/
def descendants (arena : Arena) (id : NodeId) : List NodeId :=
  (arena.tree id).preorder.map Stamp.id

/-- The nodes under a node, itself included, children before parents. -/
def postorder (arena : Arena) (id : NodeId) : List NodeId :=
  (arena.tree id).postorder.map Stamp.id

end Arena

end JavaFold
