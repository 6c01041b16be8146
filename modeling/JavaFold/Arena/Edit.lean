import JavaFold.Arena.Basic

/-!
# Changing arenas

Every change is checked in full before anything is written, and keeps the two directions of a link
in step. A refused change leaves the arena as it was; a sequence of changes that is refused midway
keeps what was done before.
-/

namespace JavaFold

/-- A change of an arena that gives an `α` or is refused. -/
abbrev Edit := EStateM Violation Arena

namespace Arena

/-- The arena with one node changed. -/
def modifyNode (arena : Arena) (id : NodeId) (change : Node → Node) : Arena :=
  { arena with nodes := arena.nodes.modify id.index change }

/-- The arena with a node linked to a parent. -/
def link (arena : Arena) (parent : NodeId) (location : Location) (id : NodeId) : Arena :=
  arena.modifyNode id fun node => { node with parent := parent, location := some location }

/-- The arena with a node linked to no parent. -/
def unlink (arena : Arena) (id : NodeId) : Arena :=
  arena.modifyNode id fun node => { node with parent := .absent, location := none }

/-- The arena with a node's kind changed. -/
def modifyKind (arena : Arena) (id : NodeId) (change : ArenaKind → ArenaKind) : Arena :=
  arena.modifyNode id fun node => { node with kind := change node.kind }

/-- The arena with the locations of list elements set to their places from `index` on. -/
def renumber (arena : Arena) (property : Property) (index : Nat) : List NodeId → Arena
  | [] => arena
  | id :: rest =>
    (arena.modifyNode id fun node => { node with location := some (.element property index) })
      |>.renumber property (index + 1) rest

/-- Refuse a node that cannot become a child: it has to be there, not be the root and have no
parent. -/
def checkAttachable (arena : Arena) (id : NodeId) : Except Violation Unit := do
  let node ← arena.require id
  if id = arena.root then throw (.rootAsChild id node.tag)
  else if node.parent.isPresent then throw (.alreadyAttached id node.tag node.parent)
  else return ()

/-- Refuse children of a new node `parent` that cannot become children or come up twice. -/
def checkChildren (arena : Arena) (parent : NodeId) :
    (earlier children : List NodeId) → Except Violation Unit
  | _, [] => return ()
  | earlier, child :: rest => do
    let node ← arena.require child
    arena.checkAttachable child
    if earlier.contains child then throw (.alreadyAttached child node.tag parent)
    else arena.checkChildren parent (earlier ++ [child]) rest

/-- Refuse a new node whose children cannot be listed or cannot become its children. -/
def checkNew (arena : Arena) (kind : ArenaKind) : Except Violation Unit := do
  let children ← kind.childSlots
  arena.checkChildren ⟨arena.size⟩ [] (children.map Prod.snd)

/-- Refuse a node that is not there or has a parent. -/
def checkParentless (arena : Arena) (id : NodeId) : Except Violation Unit := do
  let node ← arena.require id
  if node.parent.isPresent then throw (.alreadyAttached id node.tag node.parent)
  else return ()

/-- The slot in which `old` can be replaced by `new`. -/
def checkReplacement (arena : Arena) (old new : NodeId) :
    Except Violation (NodeId × Location) := do
  let node ← arena.require new
  let slot ← arena.attachedSlot old
  if arena.isAncestorOrSelf new old then throw (.wouldCycle new old)
  else if new = arena.root || node.parent.isPresent then
    throw (.alreadyAttached new node.tag node.parent)
  else return slot

/-- The slot out of which a node can be taken. -/
def checkRemoval (arena : Arena) (id : NodeId) : Except Violation (NodeId × Location) := do
  let (parent, location) ← arena.attachedSlot id
  match location with
  | .single property =>
    let node ← arena.require parent
    if node.tag.isOptional property then return (parent, location)
    else throw (.requiredSlot parent node.tag location)
  | .element .. => return (parent, location)

/-- The arena with one more node, to which its children are linked. -/
def push (arena : Arena) (kind : ArenaKind) (span : Span) : Arena :=
  let id : NodeId := ⟨arena.size⟩
  kind.children.foldl (fun arena (location, child) => arena.link id location child)
    { arena with nodes := arena.nodes.push ⟨kind, span, .absent, none⟩ }

/-- The arena with a child taken out of its slot, later elements of a list moving up. -/
def withoutChild (arena : Arena) (parent : NodeId) (location : Location) (id : NodeId) : Arena :=
  let arena := arena.modifyKind parent (·.erase location .absent)
  match location with
  | .single _ => arena.unlink id
  | .element property index =>
    let later := ((arena.node? parent).bind (·.kind.list? property)).getD [] |>.drop index
    (arena.renumber property index later).unlink id

end Arena

namespace Edit

/-- The outcome of a check, as a change of nothing. -/
def ofExcept {α : Type} : Except Violation α → Edit α
  | .ok value => return value
  | .error violation => throw violation

/-- The handle of a text. -/
def intern (text : String) : Edit Name :=
  modifyGet fun arena =>
    let (name, names) := arena.names.intern text
    (name, { arena with names := names })

/-- Allocate a node and attach the children that its kind names. -/
def alloc (kind : ArenaKind) (span : Span) : Edit NodeId := do
  let id : NodeId := ⟨(← get).size⟩
  if NodeId.maxIndex < id.index then throw (.tooManyNodes id.index)
  ofExcept ((← get).checkNew kind)
  modify (·.push kind span)
  return id

/-- Allocate a node whose texts are given as such. -/
def allocSpelled (kind : NodeKind String NodeId) (span : Span) : Edit NodeId := do
  alloc (← kind.traverse intern (fun _ => pure) (fun _ => pure)) span

/-- Designate a parentless node as the root. -/
def setRoot (id : NodeId) : Edit Unit := do
  ofExcept ((← get).checkParentless id)
  modify fun arena => { arena with root := id }

/-- Make a parentless node the root in place of the present one, which becomes detached. -/
def replaceRoot (new : NodeId) : Edit Unit :=
  setRoot new

/-- Put `new`, which is detached, into the slot of `old`, which becomes detached. -/
def replaceChild (old new : NodeId) : Edit Unit := do
  let (parent, location) ← ofExcept ((← get).checkReplacement old new)
  modify fun arena =>
    ((arena.modifyKind parent (·.set location new)).unlink old).link parent location new

/-- Take a node out of its slot, which has to be an optional one or an element of a list. -/
def removeChild (id : NodeId) : Edit Unit := do
  let (parent, location) ← ofExcept ((← get).checkRemoval id)
  modify fun arena => arena.withoutChild parent location id

/-- Copy the nodes under a node down to the given depth, children first. -/
def copyUpTo : Nat → NodeId → Edit NodeId
  | 0, _ => return .absent
  | depth + 1, id => do
    match (← get).node? id with
    | some node =>
      let kind ← node.kind.traverse pure (fun _ child => copyUpTo depth child)
        (fun _ children => children.mapM (copyUpTo depth))
      alloc kind node.span
    | none => return .absent

/-- Copy the nodes under a node into new ones, children first. The copy is detached. -/
def copySubtree (id : NodeId) : Edit NodeId := do
  let _ ← ofExcept ((← get).require id)
  copyUpTo (← get).size id

/-- Visit nodes one after the other and add up what the visits give. -/
def visitAll (visit : NodeId → Edit Nat) (ids : List NodeId) : Edit Nat :=
  ids.foldlM (fun count id => return count + (← visit id)) 0

/-- Visit the nodes under a node down to the given depth, children first, and add up what the visits
give. The children of a node are those that it has when it is come to, so that a node put in the
place of one of them is not visited. -/
def walkUpTo (visit : NodeId → Edit Nat) : Nat → NodeId → Edit Nat
  | 0, _ => return 0
  | depth + 1, id => do
    let children := ((← get).children? id).getD []
    let below ← visitAll (walkUpTo visit depth) (children.map Prod.snd)
    return below + (← visit id)

/-- Visit the nodes under a node, children first, and add up what the visits give. -/
def walk (visit : NodeId → Edit Nat) (id : NodeId) : Edit Nat := do
  walkUpTo visit (← get).size id

end Edit

end JavaFold
