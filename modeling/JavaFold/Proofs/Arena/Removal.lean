import JavaFold.Proofs.Arena.Overfull
import JavaFold.Proofs.Node.Children

/-!
# Taking a child out

A child leaves its slot and is detached. If it filled a single slot, the slot is left empty
(`Emptied`). If it was an element of a list, the list closes the gap: the later elements move up by
one place, in the list and in their own records, and nothing else moves (`ClosedUp`). All other
nodes are as they were (`Vacated`). The number of nodes plays no part in this.
-/

namespace JavaFold.Arena

variable {arena arena' view : Arena} {id x parent : NodeId} {location : Location} {node : Node}

/-- The list that a node holds for a property. -/
def row? (arena : Arena) (parent : NodeId) (property : Property) : Option (List NodeId) :=
  (arena.node? parent).bind fun node => node.kind.list? property

/-- A child sits at a location by both records: it is listed there among the children of the parent,
and the location is its own. -/
def Sits (arena : Arena) (parent : NodeId) (location : Location) (child : NodeId) : Prop :=
  (∃ children, arena.children? parent = some children ∧ (location, child) ∈ children) ∧
    arena.location? child = some location

/-- A child has left its slot. -/
structure Vacated (arena arena' : Arena) (id parent : NodeId) (location : Location) : Prop where
  /-- The child was held at the location. -/
  held : arena.parent? id = some parent ∧ arena.location? id = some location
  /-- The child is neither attached nor the root. -/
  detached : arena'.isDetached? id = some true ∧ arena'.location? id = none
  /-- The tree under the child is as it was. -/
  subtree : arena'.tree id = arena.tree id
  /-- The other children of the parent are listed in the same order. -/
  children : ∃ before after, arena.children? parent = some (before ++ (location, id) :: after) ∧
    arena'.children? parent = some (before ++ after.map fun (l, c) => (location.after l, c))
  /-- Only the parent is of another kind, no other node has another parent, and no node that is not
  a child of the parent is at another location. -/
  kept : ∀ {x node}, arena.node? x = some node → ∃ node', arena'.node? x = some node' ∧
    node'.span = node.span ∧
    node'.kind = (if x = parent then node.kind.erase location .absent else node.kind) ∧
    (x ≠ id → node'.parent = node.parent ∧ node'.location =
      if node.parent = parent then node.location.map location.after else node.location)
  /-- There are as many nodes as before. -/
  size : arena'.size = arena.size
  /-- The root is the same. -/
  root : arena'.root = arena.root
  /-- The texts are the same. -/
  names : arena'.names = arena.names

/-- A single slot is empty, and all other children sit where they sat. -/
structure Emptied (arena arena' : Arena) (id parent : NodeId) (property : Property) : Prop where
  /-- The slot holds no node. -/
  slot : arena'.resolve parent (.single property) = .ok .absent
  /-- Of the children of the parent, one entry is missing. -/
  children : ∃ before after,
    arena.children? parent = some (before ++ (.single property, id) :: after) ∧
    arena'.children? parent = some (before ++ after)
  /-- The other children sit where they sat. -/
  others : ∀ {l c}, arena.Sits parent l c → c ≠ id → arena'.Sits parent l c

/-- A list has closed up over the place of one of its elements. -/
structure ClosedUp (arena arena' : Arena) (id parent : NodeId) (property : Property) (index : Nat)
    (ids : List NodeId) : Prop where
  /-- The list as it was, with the element in its place. -/
  before : arena.row? parent property = some ids ∧ ids[index]? = some id
  /-- The list is without the element. -/
  after : arena'.row? parent property = some (ids.eraseIdx index)
  /-- The elements behind it have moved up by one place. -/
  later : ∀ {j c}, index < j → ids[j]? = some c → arena'.Sits parent (.element property (j - 1)) c
  /-- The elements before it are where they were. -/
  earlier : ∀ {j c}, j < index → ids[j]? = some c → arena'.Sits parent (.element property j) c
  /-- The children of other properties are where they were. -/
  others : ∀ {l c}, arena.Sits parent l c → l.property ≠ property → arena'.Sits parent l c

/-! ## Every slot -/

theorem Shows.vacated (h : arena.Shows view) (hat : arena.AttachedAt id parent location) :
    Vacated arena (arena.withoutChild parent location id) id parent location := by
  have hparent := hat.parent?_eq
  have hshown := h.withoutChild (h.attachedAt hat)
  obtain ⟨inode, pnode, hin, hir, hip, hil, hpn, hget⟩ := hat
  have hnode := (h.linkedAt hpn).node?_withoutChild hpn hget
  refine {
    held := ⟨hparent, ?held⟩
    detached := ⟨?detached, ?unplaced⟩
    subtree := ?subtree
    children := ?children
    kept := ?kept
    size := size_withoutChild
    root := root_withoutChild
    names := names_withoutChild }
  case held => rw [location?, hin, Option.bind_some, hil]
  case detached =>
    rw [isDetached?, root_withoutChild, if_neg hir, hnode, hin]
    simp
  case unplaced =>
    rw [location?, hnode, hin]
    simp
  case subtree =>
    refine h.tree_congr_outside hshown names_withoutChild hin (h.not_under_parent hparent)
      fun hy hne => ?_
    rw [hnode, hy, Option.map_some, if_neg hne]
    exact ⟨_, rfl, rfl, rfl⟩
  case children =>
    obtain ⟨before, after, hbefore, -, herase⟩ :=
      NodeKind.exists_children_cut hget (isPresent_of_node? hin)
    refine ⟨before, after, by rw [children?, hpn, Option.map_some, hbefore], ?_⟩
    rw [children?, hnode, hpn, Option.map_some, Option.map_some, if_pos rfl,
      herase .absent NodeId.isPresent_absent]
  case kept =>
    intro y ynode hy
    refine ⟨_, by rw [hnode, hy, Option.map_some], ?_, ?_, fun hne => ⟨?_, ?_⟩⟩
    · rfl
    · rfl
    · exact if_neg hne
    · exact if_neg hne

section Slots

variable {pnode : Node} {property : Property} {index : Nat} {ids : List NodeId}

theorem Sits.mem_children {l : Location} {c : NodeId} (hs : arena.Sits parent l c)
    (hpn : arena.node? parent = some pnode) : (l, c) ∈ pnode.kind.children := by
  obtain ⟨⟨children, hchildren, hc⟩, -⟩ := hs
  rw [children?, hpn, Option.map_some] at hchildren
  cases hchildren
  exact hc

/-- Every other child of the parent sits where the removal moves it. -/
theorem LinkedAt.sits_withoutChild (hl : arena.LinkedAt parent pnode.kind)
    (hpn : arena.node? parent = some pnode) (hget : pnode.kind.get? location = some id)
    {l : Location} {c : NodeId} (hc : (l, c) ∈ pnode.kind.children) (hne : l ≠ location) :
    (arena.withoutChild parent location id).Sits parent (location.after l) c := by
  have hnode := hl.node?_withoutChild hpn hget
  obtain ⟨child, hchild, hcp, hcl⟩ := hl.down hc
  have hpresent : c.isPresent = true := isPresent_of_node? hchild
  constructor
  · refine ⟨_, by rw [children?, hnode, hpn, Option.map_some, Option.map_some, if_pos rfl], ?_⟩
    refine NodeKind.mem_children_of_get? ?_ hpresent
    rw [NodeKind.get?_erase_after hget .absent l hne]
    exact NodeKind.get?_of_mem_children hc
  · have hci : c ≠ id := by
      rintro rfl
      obtain ⟨child', hchild', -, hcl'⟩ := hl.down (NodeKind.mem_children_of_get? hget hpresent)
      cases Option.some.inj (hchild.symm.trans hchild')
      exact hne (Option.some.inj (hcl.symm.trans hcl'))
    rw [location?, hnode, hchild, Option.map_some, Option.bind_some]
    simp only [hci, if_false, hcp, if_true, hcl, Option.map_some]

/-! ## Single slots -/

theorem Shows.emptied (h : arena.Shows view) (hat : arena.AttachedAt id parent (.single property)) :
    Emptied arena (arena.withoutChild parent (.single property) id) id parent property := by
  have hv := h.vacated hat
  obtain ⟨inode, pnode, hin, -, -, -, hpn, hget⟩ := hat
  have hl := h.linkedAt hpn
  refine ⟨?slot, ?children, ?others⟩
  case slot =>
    refine resolve_eq_ok.2 ⟨_, by rw [hl.node?_withoutChild hpn hget, hpn, Option.map_some], ?_⟩
    rw [if_pos rfl, NodeKind.get?_erase_single hget, if_pos rfl]
  case children =>
    obtain ⟨before, after, hbefore, hafter⟩ := hv.children
    simp only [Location.after_single, Prod.mk.eta, List.map_id'] at hafter
    exact ⟨before, after, hbefore, hafter⟩
  case others =>
    intro l c hs hne
    have hc := hs.mem_children hpn
    have hlne : l ≠ .single property := by
      rintro rfl
      exact hne (Option.some.inj ((NodeKind.get?_of_mem_children hc).symm.trans hget))
    simpa using hl.sits_withoutChild hpn hget hc hlne

/-! ## Lists -/

private theorem LinkedAt.row?_withoutChild (hl : arena.LinkedAt parent pnode.kind)
    (hpn : arena.node? parent = some pnode)
    (hget : pnode.kind.get? (.element property index) = some id) :
    (arena.withoutChild parent (.element property index) id).row? parent property =
      (arena.row? parent property).map (·.eraseIdx index) := by
  rw [row?, row?, hl.node?_withoutChild hpn hget, hpn, Option.map_some, Option.bind_some,
    Option.bind_some, if_pos rfl, NodeKind.erase, NodeKind.modifyList, NodeKind.list?_modify]
  simp

/-- The elements behind a removed one move up by one, and everything else stays. -/
private theorem Shows.closedUp (h : arena.Shows view)
    (hat : arena.AttachedAt id parent (.element property index)) :
    ∃ ids, ClosedUp arena (arena.withoutChild parent (.element property index) id) id parent
      property index ids := by
  obtain ⟨inode, pnode, hin, -, -, -, hpn, hget⟩ := hat
  have hl := h.linkedAt hpn
  obtain ⟨ids, hids, hi⟩ := NodeKind.get?_element.1 hget
  have hrow : arena.row? parent property = some ids := by
    rw [row?, hpn, Option.bind_some, NodeKind.list?_eq_some.2 hids]
  have hmoved {j : Nat} {c : NodeId} (hne : j ≠ index) (hj : ids[j]? = some c) :
      (arena.withoutChild parent (.element property index) id).Sits parent
        (Location.after (.element property index) (.element property j)) c := by
    refine hl.sits_withoutChild hpn hget (NodeKind.mem_children_element.2 ⟨ids, hids, hj⟩) ?_
    simpa using hne
  refine ⟨ids, ⟨hrow, hi⟩, ?after, ?later, ?earlier, ?others⟩
  case after => rw [hl.row?_withoutChild hpn hget, hrow, Option.map_some]
  case later =>
    intro j c hlt hj
    rw [← Location.after_element_of_lt hlt]
    exact hmoved hlt.ne' hj
  case earlier =>
    intro j c hlt hj
    rw [← Location.after_element_of_le hlt.le]
    exact hmoved hlt.ne hj
  case others =>
    intro l c hs hne
    have hlne : l ≠ .element property index := by
      rintro rfl
      exact hne rfl
    have hstays : Location.after (.element property index) l = l :=
      Location.after_of_property_ne hne
    rw [← hstays]
    exact hl.sits_withoutChild hpn hget (hs.mem_children hpn) hlne

end Slots

/-! ## Every removal -/

/-- In every arena that operations lead to, a removal empties a single slot or closes up a list, and
changes nothing else. -/
theorem reachable_removeChild_renumbers (h : arena.Reachable)
    (hrun : (Edit.removeChild id).run arena = .ok () arena') :
    ∃ parent location, Vacated arena arena' id parent location ∧
      (∀ property, location = .single property → Emptied arena arena' id parent property) ∧
      ∀ property index, location = .element property index →
        ∃ ids, ClosedUp arena arena' id parent property index ids := by
  obtain ⟨view, hshows⟩ := h.exists_shows
  rw [Edit.run_removeChild] at hrun
  split at hrun
  next parent location hcheck =>
    cases hrun
    have hat := (checkRemoval_eq_ok.1 hcheck).1
    refine ⟨parent, location, hshows.vacated hat, ?_, ?_⟩
    · rintro property rfl
      exact hshows.emptied hat
    · rintro property index rfl
      exact hshows.closedUp hat
  next => cases hrun

/-- The first of three initializers of a loop is taken out, and the updaters stay. -/
theorem reachable_removeChild_renumbers_loop :
    ∃ arena arena', arena = [Operation.alloc .nullLiteral ⟨5, 9⟩, .alloc .nullLiteral ⟨11, 15⟩,
        .alloc .nullLiteral ⟨17, 21⟩, .alloc .nullLiteral ⟨24, 28⟩, .alloc .nullLiteral ⟨30, 34⟩,
        .alloc .emptyStatement ⟨35, 36⟩,
        .alloc (.forStatement [⟨0⟩, ⟨1⟩, ⟨2⟩] .absent [⟨3⟩, ⟨4⟩] ⟨5⟩)
          ⟨0, 36⟩].foldl Operation.perform .empty ∧
      (Edit.removeChild ⟨0⟩).run arena = .ok () arena' ∧
      arena'.row? ⟨6⟩ .initializers = some [⟨1⟩, ⟨2⟩] ∧
      arena'.Sits ⟨6⟩ (.element .initializers 1) ⟨2⟩ ∧
      arena'.Sits ⟨6⟩ (.element .updaters 1) ⟨4⟩ := by
  obtain ⟨arena, ha⟩ : ∃ arena, arena = [Operation.alloc .nullLiteral ⟨5, 9⟩,
    .alloc .nullLiteral ⟨11, 15⟩, .alloc .nullLiteral ⟨17, 21⟩, .alloc .nullLiteral ⟨24, 28⟩,
    .alloc .nullLiteral ⟨30, 34⟩, .alloc .emptyStatement ⟨35, 36⟩,
    .alloc (.forStatement [⟨0⟩, ⟨1⟩, ⟨2⟩] .absent [⟨3⟩, ⟨4⟩] ⟨5⟩)
      ⟨0, 36⟩].foldl Operation.perform .empty := ⟨_, rfl⟩
  have hreachable : arena.Reachable := ha ▸ Reachable.empty.performAll _
  have hchecked : arena.checkRemoval ⟨0⟩ = .ok (⟨6⟩, .element .initializers 0) := by
    rw [ha]
    decide +kernel
  have hplace : arena.parent? ⟨0⟩ = some ⟨6⟩ ∧
      arena.location? ⟨0⟩ = some (.element .initializers 0) := by
    rw [ha]
    decide +kernel
  have hupdater : arena.Sits ⟨6⟩ (.element .updaters 1) ⟨4⟩ := by
    rw [ha]
    exact ⟨⟨_, rfl, by decide +kernel⟩, by decide +kernel⟩
  have hrow : arena.row? ⟨6⟩ .initializers = some [⟨0⟩, ⟨1⟩, ⟨2⟩] := by
    rw [ha]
    decide +kernel
  have hrun : (Edit.removeChild ⟨0⟩).run arena =
      .ok () (arena.withoutChild ⟨6⟩ (.element .initializers 0) ⟨0⟩) := by
    simp only [Edit.run_removeChild, hchecked]
  obtain ⟨parent, location, hv, -, hlist⟩ := reachable_removeChild_renumbers hreachable hrun
  cases Option.some.inj (hv.held.1.symm.trans hplace.1)
  cases Option.some.inj (hv.held.2.symm.trans hplace.2)
  obtain ⟨ids, hc⟩ := hlist .initializers 0 rfl
  cases Option.some.inj (hc.before.1.symm.trans hrow)
  exact ⟨arena, _, ha, hrun, hc.after, hc.later (j := 2) (by decide) rfl,
    hc.others hupdater (by decide)⟩

end JavaFold.Arena
