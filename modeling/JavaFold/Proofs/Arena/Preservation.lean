import JavaFold.Proofs.Arena.Checks

/-!
# Every change keeps the links

For each change the nodes of the resulting arena are described first, then the link invariant is
carried over. New nodes are linked to their children, a replaced node hands its slot over, and a
node taken out of a list moves the later ones up by one place.
-/

namespace JavaFold.Arena

variable {arena : Arena} {id x old new parent : NodeId} {location : Location}

/-! ## Several links at once -/

/-- Linking a list of children leaves every other node alone. -/
theorem node?_foldl_link_of_not_mem (children : List (Location × NodeId)) (arena : Arena)
    (h : x ∉ children.map Prod.snd) :
    (children.foldl (fun arena (location, child) => arena.link parent location child)
      arena).node? x = arena.node? x := by
  induction children generalizing arena with
  | nil => rfl
  | cons entry rest ih =>
    simp only [List.map_cons, List.mem_cons, not_or] at h
    rw [List.foldl_cons, ih _ h.2]
    simp only [link, node?_modifyNode, if_neg h.1]

/-- Linking a list of different children links each of them to its location. -/
theorem node?_foldl_link_of_mem {children : List (Location × NodeId)} (arena : Arena)
    (hn : (children.map Prod.snd).Nodup) (h : (location, x) ∈ children) :
    (children.foldl (fun arena (location, child) => arena.link parent location child)
      arena).node? x =
      (arena.node? x).map fun node =>
        { node with parent := parent, location := some location } := by
  induction children generalizing arena with
  | nil => cases h
  | cons entry rest ih =>
    rw [List.map_cons, List.nodup_cons] at hn
    rw [List.foldl_cons]
    rcases List.mem_cons.1 h with rfl | hm
    · rw [node?_foldl_link_of_not_mem rest _ hn.1]
      simp only [link, node?_modifyNode, if_true]
    · have hne : x ≠ entry.2 := fun he => hn.1 (he ▸ List.mem_map_of_mem hm)
      rw [ih _ hn.2 hm]
      simp only [link, node?_modifyNode, if_neg hne]

@[simp] theorem foldl_link_size (children : List (Location × NodeId)) (arena : Arena) :
    (children.foldl (fun arena (location, child) => arena.link parent location child)
      arena).size = arena.size := by
  induction children generalizing arena with
  | nil => rfl
  | cons entry rest ih =>
    rw [List.foldl_cons, ih]
    simp only [link, size_modifyNode]

@[simp] theorem foldl_link_root (children : List (Location × NodeId)) (arena : Arena) :
    (children.foldl (fun arena (location, child) => arena.link parent location child)
      arena).root = arena.root := by
  induction children generalizing arena with
  | nil => rfl
  | cons entry rest ih =>
    rw [List.foldl_cons, ih]
    simp only [link, root_modifyNode]

@[simp] theorem foldl_link_names (children : List (Location × NodeId)) (arena : Arena) :
    (children.foldl (fun arena (location, child) => arena.link parent location child)
      arena).names = arena.names := by
  induction children generalizing arena with
  | nil => rfl
  | cons entry rest ih =>
    rw [List.foldl_cons, ih]
    simp only [link, names_modifyNode]

/-! ## Allocation -/

section Push

variable {kind : ArenaKind} {span : Span}

@[simp] theorem size_push (arena : Arena) (kind : ArenaKind) (span : Span) :
    (arena.push kind span).size = arena.size + 1 := by
  rw [push, foldl_link_size]
  simp [size]

@[simp] theorem root_push (arena : Arena) (kind : ArenaKind) (span : Span) :
    (arena.push kind span).root = arena.root := by
  simp [push]

@[simp] theorem names_push (arena : Arena) (kind : ArenaKind) (span : Span) :
    (arena.push kind span).names = arena.names := by
  simp [push]

/-- The children of a new node are different nodes that can become children. -/
structure Adoptable (arena : Arena) (kind : ArenaKind) : Prop where
  /-- Each of them can become a child. -/
  attachable : ∀ c ∈ kind.children.map Prod.snd, arena.Attachable c
  /-- No two of them are the same. -/
  nodup : (kind.children.map Prod.snd).Nodup

/-- Different nodes of an arena are few enough to be listed as children. -/
theorem listable_of_nodup (hs : arena.size ≤ NodeId.maxIndex)
    (hnodup : (kind.children.map Prod.snd).Nodup)
    (h : ∀ c ∈ kind.children.map Prod.snd, ∃ node, arena.node? c = some node) :
    kind.Listable := by
  intro property children hl
  have hlength := NodeKind.length_le_length_children hl
  have hle := length_le_size hnodup h
  have hbounds : NodeId.maxIndex = Location.maxIndex := rfl
  rw [List.length_map] at hle
  omega

/-- Children that can be adopted are distinct nodes, so a list of them is never too long to be
numbered. -/
theorem Adoptable.listable (h : arena.Adoptable kind) (hs : arena.size ≤ NodeId.maxIndex) :
    kind.Listable := by
  refine listable_of_nodup hs h.nodup fun c hc => ?_
  obtain ⟨node, hn, -⟩ := h.attachable c hc
  exact ⟨node, hn⟩

/-- A new node is accepted exactly if its children can be adopted. -/
theorem checkNew_eq_ok (hs : arena.size ≤ NodeId.maxIndex) :
    arena.checkNew kind = .ok () ↔ arena.Adoptable kind := by
  simp only [checkNew, bind_eq_ok, NodeKind.childSlots_eq_ok, checkChildren_eq_ok]
  constructor
  · rintro ⟨-, ⟨-, rfl⟩, hattachable, hnodup, -⟩
    exact ⟨hattachable, hnodup⟩
  · intro h
    exact ⟨_, ⟨h.listable hs, rfl⟩, h.attachable, h.nodup, by simp⟩

/-- As long as an index is left, the next handle is not the one that means nothing. -/
theorem isPresent_next (hs : arena.size < NodeId.maxIndex) :
    (⟨arena.size⟩ : NodeId).isPresent = true := by
  rw [NodeId.isPresent_iff, NodeId.absent, ne_eq, NodeId.mk.injEq]
  omega

/-- One more node at the end leaves every node under its handle. -/
theorem node?_nodes_push {node : Node} (hn : arena.node? x = some node) (new : Node) :
    ({ arena with nodes := arena.nodes.push new } : Arena).node? x = some node := by
  obtain ⟨hp, hi⟩ := node?_eq_some.1 hn
  have hlt : x.index < arena.nodes.size := index_lt_of_node? hn
  rw [node?, if_pos hp, Array.getElem?_push, if_neg (Nat.ne_of_lt hlt), hi]

private theorem node?_pushed (hs : arena.size < NodeId.maxIndex) (node : Node) (x : NodeId) :
    ({ arena with nodes := arena.nodes.push node } : Arena).node? x =
      if x = ⟨arena.size⟩ then some node else arena.node? x := by
  have hp := isPresent_next hs
  by_cases hx : x = ⟨arena.size⟩
  · subst hx
    rw [node?, if_pos hp]
    simp [size]
  · have hne : x.index ≠ arena.nodes.size := fun he => hx (by cases x; simp_all [size])
    simp only [node?, hx, if_false, Array.getElem?_push, hne]

private theorem Adoptable.ne_next (h : arena.Adoptable kind) {c : NodeId}
    (hc : (location, c) ∈ kind.children) : c ≠ ⟨arena.size⟩ := by
  rintro rfl
  obtain ⟨node, hn, -⟩ := h.attachable _ (List.mem_map_of_mem hc)
  exact absurd (index_lt_of_node? hn) (lt_irrefl _)

/-- The new node is found as it was given, detached. -/
theorem node?_push_self (hs : arena.size < NodeId.maxIndex) (h : arena.Adoptable kind) :
    (arena.push kind span).node? ⟨arena.size⟩ = some ⟨kind, span, .absent, none⟩ := by
  rw [push, node?_foldl_link_of_not_mem, node?_pushed hs, if_pos rfl]
  intro hm
  obtain ⟨⟨l, c⟩, hc, he⟩ := List.mem_map.1 hm
  exact h.ne_next hc he

/-- A child of the new node has it for its parent, at the location where it is listed, and is
otherwise as before. -/
theorem node?_push_child (hs : arena.size < NodeId.maxIndex) (h : arena.Adoptable kind)
    (hx : (location, x) ∈ kind.children) :
    (arena.push kind span).node? x = (arena.node? x).map fun node =>
      { node with parent := ⟨arena.size⟩, location := some location } := by
  rw [push, node?_foldl_link_of_mem _ h.nodup hx, node?_pushed hs, if_neg (h.ne_next hx)]

/-- Nodes that the new one does not name are as before. -/
theorem node?_push_other (hs : arena.size < NodeId.maxIndex) (hx : x ∉ kind.children.map Prod.snd)
    (hne : x ≠ ⟨arena.size⟩) : (arena.push kind span).node? x = arena.node? x := by
  rw [push, node?_foldl_link_of_not_mem _ _ hx, node?_pushed hs, if_neg hne]

/-- What was there before an allocation keeps its kind and its span. -/
theorem node?_push_of_node? (hs : arena.size < NodeId.maxIndex) (h : arena.Adoptable kind)
    {node : Node} (hn : arena.node? x = some node) :
    ∃ node', (arena.push kind span).node? x = some node' ∧ node'.kind = node.kind ∧
      node'.span = node.span := by
  by_cases hx : x ∈ kind.children.map Prod.snd
  · obtain ⟨⟨l, c⟩, hc, rfl⟩ := List.mem_map.1 hx
    rw [node?_push_child hs h hc, hn]
    exact ⟨_, rfl, rfl, rfl⟩
  · have hne : x ≠ ⟨arena.size⟩ := by
      rintro rfl
      exact absurd (index_lt_of_node? hn) (lt_irrefl _)
    rw [node?_push_other hs hx hne]
    exact ⟨node, hn, rfl, rfl⟩

/-- A node of the new arena is the new one, one of its children, or as it was. -/
theorem node?_push_cases (hs : arena.size < NodeId.maxIndex) (h : arena.Adoptable kind)
    {node' : Node} (hn' : (arena.push kind span).node? x = some node') :
    (x = ⟨arena.size⟩ ∧ node' = ⟨kind, span, .absent, none⟩) ∨
    (∃ l node, (l, x) ∈ kind.children ∧ arena.node? x = some node ∧
      node' = { node with parent := ⟨arena.size⟩, location := some l }) ∨
    (x ∉ kind.children.map Prod.snd ∧ x ≠ ⟨arena.size⟩ ∧ arena.node? x = some node') := by
  by_cases hx : x = ⟨arena.size⟩
  · subst hx
    exact .inl ⟨rfl, Option.some.inj (hn'.symm.trans (node?_push_self hs h))⟩
  · by_cases hc : x ∈ kind.children.map Prod.snd
    · obtain ⟨⟨l, c⟩, hm, rfl⟩ := List.mem_map.1 hc
      rw [node?_push_child hs h hm] at hn'
      obtain ⟨node, hn, rfl⟩ := Option.map_eq_some_iff.1 hn'
      exact .inr (.inl ⟨l, node, hm, hn, rfl⟩)
    · exact .inr (.inr ⟨hc, hx, by rwa [node?_push_other hs hc hx] at hn'⟩)

/-- A child of an older node stays where it was: it has a parent, so the new node cannot take it. -/
theorem Adoptable.kept (h : arena.Adoptable kind) (hl : arena.Linked)
    (hs : arena.size < NodeId.maxIndex) {p c : NodeId} {node : Node} {l : Location}
    (hn : arena.node? p = some node) (hc : (l, c) ∈ node.kind.children) :
    ∃ child, (arena.push kind span).node? c = some child ∧ child.parent = p ∧
      child.location = some l := by
  obtain ⟨child, hchild, rfl, hloc⟩ := hl.down hn hc
  have hnot : c ∉ kind.children.map Prod.snd := by
    intro hm
    obtain ⟨child', hchild', -, hp⟩ := h.attachable c hm
    cases Option.some.inj (hchild.symm.trans hchild')
    simp [isPresent_of_node? hn] at hp
  have hne : c ≠ ⟨arena.size⟩ := by
    rintro rfl
    exact absurd (index_lt_of_node? hchild) (lt_irrefl _)
  exact ⟨child, by rw [node?_push_other hs hnot hne, hchild], rfl, hloc⟩

/-- After an allocation following parents ends: a way up is the old one, or ends at the new node. -/
theorem Adoptable.exists_depth (h : arena.Adoptable kind) (hl : arena.Linked)
    (hs : arena.size < NodeId.maxIndex) {c : NodeId} {child : Node}
    (hn' : (arena.push kind span).node? c = some child) :
    ∃ steps, (arena.push kind span).Depth c steps := by
  have htop : (arena.push kind span).Depth ⟨arena.size⟩ 0 :=
    .top ((parent?_eq_none_of_node? (node?_push_self hs h)).2 rfl)
  have htransfer : ∀ x p, (arena.push kind span).parent? x = some p →
      arena.parent? x = some p ∨ ∃ m, (arena.push kind span).Depth p m := by
    intro x p hp
    obtain ⟨node', hn', rfl, hpp⟩ := parent?_eq_some.1 hp
    rcases node?_push_cases hs h hn' with ⟨rfl, rfl⟩ | ⟨l, node, hm, hn, rfl⟩ | ⟨-, -, hn⟩
    · simp at hpp
    · exact .inr ⟨0, htop⟩
    · exact .inl (parent?_eq_some.2 ⟨node', hn, rfl, hpp⟩)
  rcases node?_push_cases hs h hn' with ⟨rfl, rfl⟩ | ⟨l, node, hm, hn, rfl⟩ | ⟨-, -, hn⟩
  · exact ⟨0, htop⟩
  all_goals
    obtain ⟨n, hd⟩ := hl.grounded hn
    exact hd.transfer htransfer

/-- Allocation keeps the links: the children were parentless, so no other link is touched. -/
theorem Linked.push (hl : arena.Linked) (hs : arena.size < NodeId.maxIndex)
    (h : arena.Adoptable kind) : (arena.push kind span).Linked where
  small := by
    rw [size_push]
    exact hs
  down := by
    intro p node' l c hn' hc
    rcases node?_push_cases hs h hn' with ⟨rfl, rfl⟩ | ⟨k, node, hm, hn, rfl⟩ | ⟨-, -, hn⟩
    · obtain ⟨child, hchild, -⟩ := h.attachable c (List.mem_map_of_mem hc)
      exact ⟨_, by rw [node?_push_child hs h hc, hchild, Option.map_some], rfl, rfl⟩
    · exact h.kept hl hs hn hc
    · exact h.kept hl hs hn hc
  up := by
    intro c child hn' hp
    rcases node?_push_cases hs h hn' with ⟨rfl, rfl⟩ | ⟨l, node, hm, hn, rfl⟩ | ⟨-, -, hn⟩
    · simp at hp
    · exact ⟨l, _, rfl, node?_push_self hs h, NodeKind.get?_of_mem_children hm⟩
    · obtain ⟨l, pnode, hloc, hpn, hg⟩ := hl.up hn hp
      obtain ⟨pnode', hpn', hk, -⟩ := node?_push_of_node? hs h hpn
      exact ⟨l, pnode', hloc, hpn', by rw [hk, hg]⟩
  lone := by
    intro c child hn' hp
    rcases node?_push_cases hs h hn' with ⟨rfl, rfl⟩ | ⟨l, node, hm, hn, rfl⟩ | ⟨-, -, hn⟩
    · rfl
    · simp [isPresent_next hs] at hp
    · exact hl.lone hn hp
  grounded := h.exists_depth hl hs
  rooted := by
    rw [root_push]
    rcases hl.rooted with hr | ⟨node, hn, hp⟩
    · exact .inl hr
    · have hnot : arena.root ∉ kind.children.map Prod.snd := by
        intro hm
        obtain ⟨_, _, hr, _⟩ := h.attachable _ hm
        exact hr rfl
      have hne : arena.root ≠ ⟨arena.size⟩ := by
        intro he
        exact absurd (index_lt_of_node? hn) (by simp [he])
      exact .inr ⟨node, by rw [node?_push_other hs hnot hne, hn], hp⟩

end Push

/-! ## The root and the names -/

/-- Links do not mention the root beyond its having no parent, so any detached node may become the
root. -/
theorem Linked.withRoot (hl : arena.Linked) {node : Node} (hn : arena.node? id = some node)
    (hp : node.parent.isPresent = false) : ({ arena with root := id } : Arena).Linked where
  small := hl.small
  down := hl.down
  up := hl.up
  lone := hl.lone
  grounded h := by
    obtain ⟨n, hd⟩ := hl.grounded h
    exact ⟨n, hd.congr fun _ _ => rfl⟩
  rooted := .inr ⟨node, hn, hp⟩

/-- Links do not mention names. -/
theorem Linked.withNames (hl : arena.Linked) (names : Interner) :
    ({ arena with names := names } : Arena).Linked where
  small := hl.small
  down := hl.down
  up := hl.up
  lone := hl.lone
  grounded h := by
    obtain ⟨n, hd⟩ := hl.grounded h
    exact ⟨n, hd.congr fun _ _ => rfl⟩
  rooted := hl.rooted

/-! ## Replacement -/

/-- The arena in which `new` has taken the slot of `old`. -/
def replaced (arena : Arena) (old new parent : NodeId) (location : Location) : Arena :=
  ((arena.modifyKind parent (·.set location new)).unlink old).link parent location new

/-- What a replacement needs: `old` is attached, and `new` is parentless and not above it. -/
structure Replaceable (arena : Arena) (old new parent : NodeId) (location : Location) : Prop where
  /-- The place of `old`. -/
  attached : arena.AttachedAt old parent location
  /-- The new node is there and has no parent. -/
  parentless : ∃ node, arena.node? new = some node ∧ node.parent.isPresent = false
  /-- The new node is not the root. -/
  ne_root : new ≠ arena.root
  /-- The new node does not lie above the old one. -/
  not_under : ¬ arena.Under new old

/-- An attached node is a node of the arena. -/
theorem AttachedAt.exists_node? (h : arena.AttachedAt id parent location) :
    ∃ node, arena.node? id = some node := by
  obtain ⟨node, -, hn, -⟩ := h
  exact ⟨node, hn⟩

/-- The node that an attached node is found in is its parent. -/
theorem AttachedAt.parent?_eq (h : arena.AttachedAt id parent location) :
    arena.parent? id = some parent := by
  obtain ⟨node, pnode, hn, -, hp, -, hpn, -⟩ := h
  exact parent?_eq_some.2 ⟨node, hn, hp, isPresent_of_node? hpn⟩

/-- In a linked arena, being attached is having a parent. -/
theorem Linked.attachedAt (hl : arena.Linked) {node : Node} (hn : arena.node? id = some node)
    (hp : node.parent.isPresent = true) : ∃ location, arena.AttachedAt id node.parent location := by
  obtain ⟨l, pnode, hloc, hpn, hg⟩ := hl.up hn hp
  refine ⟨l, node, pnode, hn, ?_, rfl, hloc, hpn, hg⟩
  rintro rfl
  rcases hl.rooted with hr | ⟨node', hn', hp'⟩
  · simp [hr] at hn
  · cases Option.some.inj (hn.symm.trans hn')
    simp [hp] at hp'

/-- Where the search for an ancestor sees the nodes above, the check before a replacement
establishes all that it needs. -/
theorem checkReplacement_eq_ok_iff
    (habove : ∀ {node}, arena.node? old = some node →
      (arena.isAncestorOrSelf new old = true ↔ arena.Under new old)) :
    arena.checkReplacement old new = .ok (parent, location) ↔
      arena.Replaceable old new parent location := by
  rw [checkReplacement_eq_ok]
  constructor
  · rintro ⟨hnew, hold, ha, hr⟩
    obtain ⟨node, hn⟩ := hold.exists_node?
    refine ⟨hold, hnew, hr, fun hu => ?_⟩
    rw [(habove hn).2 hu] at ha
    cases ha
  · rintro ⟨hold, hnew, hr, hu⟩
    obtain ⟨node, hn⟩ := hold.exists_node?
    refine ⟨hnew, hold, ?_, hr⟩
    rw [← Bool.not_eq_true, habove hn]
    exact hu

/-- Over links that agree, what the replacement checks is what it needs, with the search upwards for
the old node read as a relation. -/
theorem Linked.checkReplacement_eq_ok_iff (hl : arena.Linked) :
    arena.checkReplacement old new = .ok (parent, location) ↔
      arena.Replaceable old new parent location :=
  Arena.checkReplacement_eq_ok_iff hl.isAncestorOrSelf_iff

section Replaced

@[simp] theorem size_replaced : (arena.replaced old new parent location).size = arena.size := by
  simp [replaced, link, unlink, modifyKind]

@[simp] theorem root_replaced : (arena.replaced old new parent location).root = arena.root := rfl

@[simp] theorem names_replaced : (arena.replaced old new parent location).names = arena.names := rfl

/-- The nodes that a replacement changes, one line for each. -/
theorem node?_replaced (x : NodeId) :
    (arena.replaced old new parent location).node? x = (arena.node? x).map fun node =>
      { kind := if x = parent then node.kind.set location new else node.kind
        span := node.span
        parent := if x = new then parent else if x = old then .absent else node.parent
        location :=
          if x = new then some location else if x = old then none else node.location } := by
  simp only [replaced, link, unlink, modifyKind, node?_modifyNode]
  cases arena.node? x with
  | none => simp
  | some node => split_ifs <;> rfl

private theorem node?_replaced_eq_some {node' : Node}
    (hn' : (arena.replaced old new parent location).node? x = some node') :
    ∃ node, arena.node? x = some node ∧
      node'.kind = (if x = parent then node.kind.set location new else node.kind) ∧
      node'.parent = (if x = new then parent else if x = old then .absent else node.parent) ∧
      node'.location =
        (if x = new then some location else if x = old then none else node.location) := by
  rw [node?_replaced] at hn'
  obtain ⟨node, hn, rfl⟩ := Option.map_eq_some_iff.1 hn'
  exact ⟨node, hn, rfl, rfl, rfl⟩

/-- Only the two nodes that change places get another parent. -/
theorem parent?_replaced (hn : x ≠ new) (ho : x ≠ old) :
    (arena.replaced old new parent location).parent? x = arena.parent? x := by
  simp only [parent?, node?_replaced]
  cases arena.node? x <;> simp [hn, ho]

namespace Replaceable

/-- A node is not replaced by itself, since it would lie above itself. -/
theorem ne (h : arena.Replaceable old new parent location) : new ≠ old := by
  rintro rfl
  exact h.not_under .self

/-- The parent of the slot lies neither under the old node nor under the new one. -/
theorem parent_not_under (h : arena.Replaceable old new parent location) (hl : arena.Linked)
    (hu : arena.Under x parent) : x ≠ old ∧ x ≠ new := by
  have hp := h.attached.parent?_eq
  constructor
  · rintro rfl
    obtain ⟨node, hn⟩ := h.attached.exists_node?
    obtain ⟨n, hd⟩ := hl.grounded hn
    exact hd.not_under_parent hp hu
  · rintro rfl
    exact h.not_under (.step hp hu)

/-- A child other than the old node is held where it was. -/
theorem kept (h : arena.Replaceable old new parent location) (hl : arena.Linked) {p c : NodeId}
    {node : Node} {l : Location} (hn : arena.node? p = some node)
    (hc : (l, c) ∈ node.kind.children) (hne : c ≠ old) :
    ∃ child, (arena.replaced old new parent location).node? c = some child ∧
      child.parent = p ∧ child.location = some l := by
  obtain ⟨nnode, hnnode, hnp⟩ := h.parentless
  obtain ⟨child, hchild, rfl, hloc⟩ := hl.down hn hc
  have hcn : c ≠ new := by
    rintro rfl
    cases Option.some.inj (hchild.symm.trans hnnode)
    simp [isPresent_of_node? hn] at hnp
  refine ⟨_, by rw [node?_replaced, hchild, Option.map_some], ?_, ?_⟩ <;> simp [hcn, hne, hloc]

/-- A child after the replacement is the new one in its slot, or was a child before and is not the
old one, which had no other slot. -/
theorem children_cases (h : arena.Replaceable old new parent location) (hl : arena.Linked)
    {p c : NodeId} {node' : Node} {l : Location}
    (hn' : (arena.replaced old new parent location).node? p = some node')
    (hc : (l, c) ∈ node'.kind.children) :
    p = parent ∧ l = location ∧ c = new ∨
      ∃ node, arena.node? p = some node ∧ (l, c) ∈ node.kind.children ∧ c ≠ old := by
  obtain ⟨onode, pnode, honode, -, -, -, hpnode, hget⟩ := h.attached
  obtain ⟨node, hn, hkind, -⟩ := node?_replaced_eq_some hn'
  have honly {p : NodeId} {node : Node} {l : Location} (hn : arena.node? p = some node)
      (hg : node.kind.get? l = some old) : p = parent ∧ l = location :=
    hl.location_unique hn hpnode (isPresent_of_node? honode) hg hget
  rw [hkind] at hc
  by_cases hp : p = parent
  · subst hp
    cases Option.some.inj (hn.symm.trans hpnode)
    rw [if_pos rfl] at hc
    obtain ⟨hg, hpres⟩ := NodeKind.mem_children_iff.1 hc
    rw [NodeKind.get?_set hget] at hg
    by_cases hlc : l = location
    · rw [if_pos hlc] at hg
      exact .inl ⟨rfl, hlc, (Option.some.inj hg).symm⟩
    · rw [if_neg hlc] at hg
      refine .inr ⟨_, hn, NodeKind.mem_children_iff.2 ⟨hg, hpres⟩, ?_⟩
      rintro rfl
      exact hlc (honly hn hg).2
  · rw [if_neg hp] at hc
    refine .inr ⟨node, hn, hc, ?_⟩
    rintro rfl
    exact hp (honly hn (NodeKind.get?_of_mem_children hc)).1

/-- After the replacement, a parent holds its child at the child's location. -/
theorem held (h : arena.Replaceable old new parent location) (hl : arena.Linked) {c : NodeId}
    {child : Node} (hn' : (arena.replaced old new parent location).node? c = some child)
    (hp : child.parent.isPresent = true) :
    ∃ l node', child.location = some l ∧
      (arena.replaced old new parent location).node? child.parent = some node' ∧
      node'.kind.get? l = some c := by
  obtain ⟨-, pnode, -, -, -, -, hpnode, hget⟩ := h.attached
  obtain ⟨node, hn, -, hpar, hloc⟩ := node?_replaced_eq_some hn'
  by_cases hcn : c = new
  · subst hcn
    simp only [if_true] at hpar hloc
    refine ⟨location, _, hloc, by rw [hpar, node?_replaced, hpnode, Option.map_some], ?_⟩
    simp [NodeKind.get?_set hget]
  · simp only [hcn, if_false] at hpar hloc
    by_cases hco : c = old
    · simp [hco] at hpar
      simp [hpar] at hp
    · simp only [hco, if_false] at hpar hloc
      rw [hpar] at hp
      obtain ⟨l, qnode, hl', hqnode, hg⟩ := hl.up hn hp
      refine ⟨l, _, by rw [hloc, hl'], by rw [hpar, node?_replaced, hqnode, Option.map_some], ?_⟩
      by_cases hq : node.parent = parent
      · rw [hq] at hqnode
        cases Option.some.inj (hqnode.symm.trans hpnode)
        have hne : l ≠ location := by
          rintro rfl
          exact hco (Option.some.inj (hg.symm.trans hget))
        simp [hq, NodeKind.get?_set hget, hne, hg]
      · simp [hq, hg]

/-- After the replacement, following parents ends: on the way up from the slot no parent has
changed. -/
theorem exists_depth (h : arena.Replaceable old new parent location) (hl : arena.Linked)
    {c : NodeId} {child : Node}
    (hn' : (arena.replaced old new parent location).node? c = some child) :
    ∃ steps, (arena.replaced old new parent location).Depth c steps := by
  obtain ⟨-, pnode, -, -, -, -, hpnode, -⟩ := h.attached
  obtain ⟨m, hm⟩ := hl.grounded hpnode
  have hslot : (arena.replaced old new parent location).Depth parent m :=
    hm.congr fun x hx => parent?_replaced (h.parent_not_under hl hx).2 (h.parent_not_under hl hx).1
  obtain ⟨node, hn, -⟩ := node?_replaced_eq_some hn'
  obtain ⟨n, hd⟩ := hl.grounded hn
  refine hd.transfer fun x p hp => ?_
  by_cases hx : x = new ∨ x = old
  · obtain ⟨xnode, hxn, rfl, hpp⟩ := parent?_eq_some.1 hp
    obtain ⟨_, -, -, hpar, -⟩ := node?_replaced_eq_some hxn
    by_cases hxn : x = new
    · rw [hpar, if_pos hxn]
      exact .inr ⟨m, hslot⟩
    · rw [hpar, if_neg hxn, if_pos (hx.resolve_left hxn)] at hpp
      simp at hpp
  · rw [not_or] at hx
    exact .inl (by rwa [parent?_replaced hx.1 hx.2] at hp)

end Replaceable

/-- A replacement keeps the links: one slot changes hands, and no node comes to lie below itself. -/
theorem Linked.replaced (hl : arena.Linked) (h : arena.Replaceable old new parent location) :
    (arena.replaced old new parent location).Linked where
  small := by
    rw [size_replaced]
    exact hl.small
  down := by
    intro p node' l c hn' hc
    rcases h.children_cases hl hn' hc with ⟨rfl, rfl, rfl⟩ | ⟨node, hn, hc, hne⟩
    · obtain ⟨nnode, hnnode, -⟩ := h.parentless
      refine ⟨_, by rw [node?_replaced, hnnode, Option.map_some], ?_, ?_⟩ <;> simp
    · exact h.kept hl hn hc hne
  up := h.held hl
  lone := by
    intro c child hn' hp
    obtain ⟨-, pnode, -, -, -, -, hpnode, -⟩ := h.attached
    obtain ⟨node, hn, -, hpar, hloc⟩ := node?_replaced_eq_some hn'
    by_cases hcn : c = new
    · simp [hcn] at hpar
      simp [hpar, isPresent_of_node? hpnode] at hp
    · by_cases hco : c = old
      · simp [hloc, hco, h.ne.symm]
      · simp only [hcn, hco, if_false] at hpar hloc
        rw [hloc]
        exact hl.lone hn (by rwa [hpar] at hp)
  grounded := h.exists_depth hl
  rooted := by
    obtain ⟨-, -, -, hroot, -⟩ := h.attached
    rw [root_replaced]
    rcases hl.rooted with hr | ⟨node, hn, hp⟩
    · exact .inl hr
    · refine .inr ⟨_, by rw [node?_replaced, hn, Option.map_some], ?_⟩
      simp [h.ne_root.symm, hroot.symm, hp]

end Replaced

/-! ## Removal -/

section Removed

@[simp] theorem size_renumber (arena : Arena) (property : Property) (index : Nat)
    (ids : List NodeId) : (arena.renumber property index ids).size = arena.size := by
  induction ids generalizing arena index with
  | nil => rfl
  | cons c rest ih => rw [renumber, ih, size_modifyNode]

@[simp] theorem root_renumber (arena : Arena) (property : Property) (index : Nat)
    (ids : List NodeId) : (arena.renumber property index ids).root = arena.root := by
  induction ids generalizing arena index with
  | nil => rfl
  | cons c rest ih => rw [renumber, ih, root_modifyNode]

@[simp] theorem names_renumber (arena : Arena) (property : Property) (index : Nat)
    (ids : List NodeId) : (arena.renumber property index ids).names = arena.names := by
  induction ids generalizing arena index with
  | nil => rfl
  | cons c rest ih => rw [renumber, ih, names_modifyNode]

/-- Renumbering gives each listed node its place in the list and leaves the others alone. -/
theorem node?_renumber (arena : Arena) (property : Property) (index : Nat) {ids : List NodeId}
    (hn : ids.Nodup) (x : NodeId) :
    (arena.renumber property index ids).node? x = (arena.node? x).map fun node =>
      { node with
        location := if x ∈ ids then some (.element property (index + ids.idxOf x))
          else node.location } := by
  induction ids generalizing arena index with
  | nil => simp [renumber]
  | cons c rest ih =>
    rw [List.nodup_cons] at hn
    rw [renumber, ih _ _ hn.2, node?_modifyNode]
    cases arena.node? x with
    | none => simp
    | some node =>
      by_cases hx : x = c
      · subst hx
        simp [hn.1]
      · by_cases hr : x ∈ rest
        · have hidx : (c :: rest).idxOf x = rest.idxOf x + 1 := List.idxOf_cons_ne _ (Ne.symm hx)
          simp only [hx, if_false, Option.map_some, hr, if_true, List.mem_cons, or_true, hidx]
          rw [Nat.add_assoc, Nat.add_comm 1]
        · simp [hx, hr]

/-- The two records of the links between one node, which is of a given kind, and its children
agree. -/
structure LinkedAt (arena : Arena) (parent : NodeId) (kind : ArenaKind) : Prop where
  /-- A child knows its parent and its location. -/
  down : ∀ {location c}, (location, c) ∈ kind.children →
    ∃ child, arena.node? c = some child ∧ child.parent = parent ∧ child.location = some location
  /-- The parent holds its child at the child's location. -/
  up : ∀ {c child}, arena.node? c = some child → child.parent = parent →
    ∃ location, child.location = some location ∧ kind.get? location = some c

/-- In an arena whose links agree every node agrees with its children. -/
theorem Linked.linkedAt (hl : arena.Linked) {pnode : Node} (hp : arena.node? parent = some pnode) :
    arena.LinkedAt parent pnode.kind := by
  refine ⟨hl.down hp, ?_⟩
  rintro c child hc rfl
  obtain ⟨l, pnode', hloc, hp', hg⟩ := hl.up hc (isPresent_of_node? hp)
  cases Option.some.inj (hp.symm.trans hp')
  exact ⟨l, hloc, hg⟩

namespace LinkedAt

variable {kind : ArenaKind} {property : Property} {ids : List NodeId}

/-- The later elements of a list are those whose location comes after the one taken out. -/
theorem mem_drop_iff (hl : arena.LinkedAt parent kind) (hs : (property, Slot.many ids) ∈ kind.slots)
    {node : Node} (hn : arena.node? x = some node) (index j : Nat) :
    (ids.drop (index + 1))[j]? = some x ↔
      node.parent = parent ∧ node.location = some (.element property (index + 1 + j)) := by
  rw [List.getElem?_drop]
  constructor
  · intro hj
    obtain ⟨child, hchild, hpar, hloc⟩ := hl.down (NodeKind.mem_children_element.2 ⟨ids, hs, hj⟩)
    cases Option.some.inj (hchild.symm.trans hn)
    exact ⟨hpar, hloc⟩
  · rintro ⟨hpar, hloc⟩
    obtain ⟨l, hloc', hg⟩ := hl.up hn hpar
    cases Option.some.inj (hloc.symm.trans hloc')
    obtain ⟨ids', hs', hi⟩ := NodeKind.get?_element.1 hg
    rwa [Slot.many.inj (NodeKind.slot_unique hs hs')]

/-- The elements of a list behind an index are different nodes, as each knows its own index. -/
private theorem drop_nodup (hl : arena.LinkedAt parent kind)
    (hs : (property, Slot.many ids) ∈ kind.slots)
    (n : Nat) : (ids.drop n).Nodup := by
  refine List.Nodup.sublist (List.drop_sublist n ids) ?_
  rw [List.nodup_iff_injective_getElem]
  intro i j hij
  have hm (k : Fin ids.length) :
      (Location.element property k.val, ids[k.val]) ∈ kind.children :=
    NodeKind.mem_children_element.2 ⟨ids, hs, List.getElem?_eq_getElem k.isLt⟩
  obtain ⟨ci, hci, -, hli⟩ := hl.down (hm i)
  obtain ⟨cj, hcj, -, hlj⟩ := hl.down (hm j)
  have hij' : ids[i.val] = ids[j.val] := hij
  rw [hij'] at hci
  cases Option.some.inj (hci.symm.trans hcj)
  have he := Option.some.inj (hli.symm.trans hlj)
  exact Fin.ext (Location.element.inj he).2

/-- The elements after the one that is taken out of a list are renumbered. -/
theorem withoutChild_element {pnode : Node} {index : Nat}
    (hpnode : arena.node? parent = some pnode) (hs : (property, Slot.many ids) ∈ pnode.kind.slots)
    (hlt : index < ids.length) :
    arena.withoutChild parent (.element property index) id =
      ((arena.modifyKind parent (·.erase (.element property index) .absent)).renumber property index
        (ids.drop (index + 1))).unlink id := by
  have hlater : ((((arena.modifyKind parent
      (·.erase (.element property index) .absent)).node? parent).bind
        (·.kind.list? property)).getD []).drop index = ids.drop (index + 1) := by
    simp only [modifyKind, node?_modifyNode, if_true, hpnode, Option.map_some, Option.bind_some,
      NodeKind.erase, NodeKind.modifyList, NodeKind.list?_modify, NodeKind.list?_eq_some.2 hs,
      Option.getD_some]
    rw [List.eraseIdx_eq_take_drop_succ, List.drop_append, List.drop_eq_nil_of_le (by simp)]
    simp [Nat.min_eq_left hlt.le]
  rw [← hlater]
  rfl

/-- To renumber the elements after the one that is taken out is to move every child of the node. -/
theorem location_renumbered (hl : arena.LinkedAt parent kind)
    (hs : (property, Slot.many ids) ∈ kind.slots) {node : Node} (hn : arena.node? x = some node)
    (index : Nat) :
    (if x ∈ ids.drop (index + 1) then
        some (.element property (index + (ids.drop (index + 1)).idxOf x))
      else node.location) =
      if node.parent = parent then node.location.map (Location.after (.element property index))
      else node.location := by
  have hmem := hl.mem_drop_iff hs hn index
  split_ifs with hd hpar hpar
  · obtain ⟨-, hloc⟩ := (hmem _).1 (List.getElem?_idxOf hd)
    rw [hloc, Option.map_some, Location.after_element_of_lt (by omega)]
    congr 2
    omega
  · exact absurd ((hmem _).1 (List.getElem?_idxOf hd)).1 hpar
  · rcases hloc : node.location with _ | (p | ⟨p, j⟩)
    · rfl
    · rfl
    · have hnot : ¬ (p = property ∧ index < j) := by
        rintro ⟨rfl, hlt⟩
        refine hd (List.mem_of_getElem? ((hmem (j - (index + 1))).2 ⟨hpar, ?_⟩))
        rw [hloc]
        congr 2
        omega
      simp [Location.after, hnot]
  · rfl

/-- The nodes that a removal changes: the parent loses a child, the child its links, and the later
elements of the list move up. -/
theorem node?_withoutChild {pnode : Node} (hl : arena.LinkedAt parent pnode.kind)
    (hpnode : arena.node? parent = some pnode) (hget : pnode.kind.get? location = some id)
    (x : NodeId) :
    (arena.withoutChild parent location id).node? x = (arena.node? x).map fun node =>
      { kind := if x = parent then node.kind.erase location .absent else node.kind
        span := node.span
        parent := if x = id then .absent else node.parent
        location :=
          if x = id then none
          else if node.parent = parent then node.location.map (Location.after location)
          else node.location } := by
  cases location with
  | single q =>
    have hafter (l : Option Location) : l.map (Location.after (.single q)) = l := by
      cases l <;> simp
    simp only [withoutChild, unlink, modifyKind, node?_modifyNode, hafter, ite_self]
    cases arena.node? x with
    | none => simp
    | some node => split_ifs <;> rfl
  | element q i =>
    obtain ⟨ids, hs, hi⟩ := NodeKind.get?_element.1 hget
    obtain ⟨hlt, -⟩ := List.getElem?_eq_some_iff.1 hi
    rw [withoutChild_element hpnode hs hlt, unlink, node?_modifyNode,
      node?_renumber _ q i (hl.drop_nodup hs (i + 1)), modifyKind, node?_modifyNode]
    cases hx : arena.node? x with
    | none => simp
    | some node =>
      simp only [Option.map_some, ← hl.location_renumbered hs hx i]
      by_cases hxi : x = id
      · simp only [hxi, if_true]
        split_ifs <;> rfl
      · simp only [hxi, if_false]
        split_ifs <;> rfl

end LinkedAt

@[simp] theorem size_withoutChild :
    (arena.withoutChild parent location id).size = arena.size := by
  cases location <;> simp [withoutChild, unlink, modifyKind]

@[simp] theorem root_withoutChild :
    (arena.withoutChild parent location id).root = arena.root := by
  cases location <;> simp [withoutChild, unlink, modifyKind]

@[simp] theorem names_withoutChild :
    (arena.withoutChild parent location id).names = arena.names := by
  cases location <;> simp [withoutChild, unlink, modifyKind]

namespace AttachedAt

theorem node?_withoutChild (h : arena.AttachedAt id parent location) (hl : arena.Linked)
    (x : NodeId) :
    (arena.withoutChild parent location id).node? x = (arena.node? x).map fun node =>
      { kind := if x = parent then node.kind.erase location .absent else node.kind
        span := node.span
        parent := if x = id then .absent else node.parent
        location :=
          if x = id then none
          else if node.parent = parent then node.location.map (Location.after location)
          else node.location } := by
  obtain ⟨-, pnode, -, -, -, -, hpnode, hget⟩ := h
  exact (hl.linkedAt hpnode).node?_withoutChild hpnode hget x

/-- The node that is taken out has no other place. -/
theorem eq_of_get? (h : arena.AttachedAt id parent location) (hl : arena.Linked) {p : NodeId}
    {node : Node} {l : Location} (hn : arena.node? p = some node)
    (hg : node.kind.get? l = some id) : p = parent ∧ l = location := by
  obtain ⟨inode, pnode, hinode, -, -, -, hpnode, hget⟩ := h
  exact hl.location_unique hn hpnode (isPresent_of_node? hinode) hg hget

private theorem parent?_of_withoutChild (h : arena.AttachedAt id parent location)
    (hl : arena.Linked)
    {p : NodeId} (hp : (arena.withoutChild parent location id).parent? x = some p) :
    arena.parent? x = some p := by
  obtain ⟨node', hn', hpar, hpp⟩ := parent?_eq_some.1 hp
  rw [h.node?_withoutChild hl] at hn'
  obtain ⟨node, hn, rfl⟩ := Option.map_eq_some_iff.1 hn'
  by_cases hx : x = id
  · simp only [hx, if_true] at hpar
    simp [← hpar] at hpp
  · simp only [hx, if_false] at hpar
    exact parent?_eq_some.2 ⟨node, hn, hpar, hpp⟩

/-- A child that is left was a child before, and moved up if its parent lost one. -/
theorem children_cases (h : arena.AttachedAt id parent location) (hl : arena.Linked) {p c : NodeId}
    {node' : Node} {l : Location}
    (hn' : (arena.withoutChild parent location id).node? p = some node')
    (hc : (l, c) ∈ node'.kind.children) :
    c ≠ id ∧ ∃ node k, arena.node? p = some node ∧ (k, c) ∈ node.kind.children ∧
      l = if p = parent then Location.after location k else k := by
  rw [h.node?_withoutChild hl] at hn'
  obtain ⟨node, hn, rfl⟩ := Option.map_eq_some_iff.1 hn'
  by_cases hp : p = parent
  · subst hp
    have hget : node.kind.get? location = some id := by
      obtain ⟨-, pnode, -, -, -, -, hpnode, hget⟩ := h
      cases Option.some.inj (hn.symm.trans hpnode)
      exact hget
    simp only [if_true] at hc ⊢
    obtain ⟨hg, hcp⟩ := NodeKind.mem_children_iff.1 hc
    obtain ⟨k, hk, rfl, hgk⟩ :=
      NodeKind.exists_of_get?_erase hget hg (hcp.imp_left NodeId.isPresent_iff.1)
    refine ⟨?_, node, k, hn, NodeKind.mem_children_iff.2 ⟨hgk, hcp.imp_right ?_⟩, rfl⟩
    · rintro rfl
      exact hk (h.eq_of_get? hl hn hgk).2
    · rintro ⟨q, j, he⟩
      cases k with
      | single p => cases he
      | element p i => exact ⟨p, i, rfl⟩
  · simp only [hp, if_false] at hc ⊢
    refine ⟨?_, node, l, hn, hc, rfl⟩
    rintro rfl
    exact hp (h.eq_of_get? hl hn (NodeKind.get?_of_mem_children hc)).1

/-- A parent still holds its child at the child's location. -/
theorem held (h : arena.AttachedAt id parent location) (hl : arena.Linked) {c : NodeId}
    {child : Node} (hn' : (arena.withoutChild parent location id).node? c = some child)
    (hp : child.parent.isPresent = true) :
    ∃ l node', child.location = some l ∧
      (arena.withoutChild parent location id).node? child.parent = some node' ∧
      node'.kind.get? l = some c := by
  have hnode := h.node?_withoutChild hl
  rw [hnode] at hn'
  obtain ⟨node, hn, rfl⟩ := Option.map_eq_some_iff.1 hn'
  by_cases hc : c = id
  · simp [hc] at hp
  · simp only [hc, if_false] at hp ⊢
    obtain ⟨l, qnode, hloc, hqnode, hg⟩ := hl.up hn hp
    by_cases hq : node.parent = parent
    · obtain ⟨-, pnode, -, -, -, -, hpnode, hget⟩ := h
      rw [hq] at hqnode
      cases Option.some.inj (hqnode.symm.trans hpnode)
      have hne : l ≠ location := by
        rintro rfl
        exact hc (Option.some.inj (hg.symm.trans hget))
      refine ⟨Location.after location l, _, by simp [hq, hloc],
        by rw [hq, hnode, hpnode, Option.map_some], ?_⟩
      simp [NodeKind.get?_erase_after hget _ l hne, hg]
    · refine ⟨l, _, by simp [hq, hloc], by rw [hnode, hqnode, Option.map_some], ?_⟩
      simp [hq, hg]

end AttachedAt

/-- A removal keeps the links: the elements that moved up are renumbered, all others stay. -/
theorem Linked.withoutChild (hl : arena.Linked) (h : arena.AttachedAt id parent location) :
    (arena.withoutChild parent location id).Linked where
  small := by
    rw [size_withoutChild]
    exact hl.small
  down := by
    intro p node' l c hn' hc
    obtain ⟨hci, node, k, hn, hk, rfl⟩ := h.children_cases hl hn' hc
    obtain ⟨child, hchild, rfl, hloc⟩ := hl.down hn hk
    refine ⟨_, by rw [h.node?_withoutChild hl, hchild, Option.map_some], ?_, ?_⟩
    · simp [hci]
    · by_cases hp : child.parent = parent <;> simp [hci, hp, hloc]
  up := h.held hl
  lone := by
    intro c child' hn' hp
    rw [h.node?_withoutChild hl] at hn'
    obtain ⟨child, hn, rfl⟩ := Option.map_eq_some_iff.1 hn'
    by_cases hc : c = id
    · simp [hc]
    · simp only [hc, if_false] at hp ⊢
      rw [hl.lone hn hp]
      simp
  grounded := by
    intro c child' hn'
    rw [h.node?_withoutChild hl] at hn'
    obtain ⟨child, hn, rfl⟩ := Option.map_eq_some_iff.1 hn'
    obtain ⟨n, hd⟩ := hl.grounded hn
    exact hd.transfer fun x p hp => .inl (h.parent?_of_withoutChild hl hp)
  rooted := by
    rw [root_withoutChild]
    rcases hl.rooted with hr | ⟨node, hn, hp⟩
    · exact .inl hr
    · have hnode := h.node?_withoutChild hl
      obtain ⟨-, -, -, hroot, -⟩ := h
      refine .inr ⟨_, by rw [hnode, hn, Option.map_some], ?_⟩
      simp [hroot.symm, hp]

end Removed

end JavaFold.Arena
