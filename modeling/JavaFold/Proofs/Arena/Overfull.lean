import JavaFold.Proofs.Arena.Reachable

/-!
# Arenas with more nodes than handles

The last node that can be allocated gets the handle of no node. It cannot be referred to, and its
children are linked to no parent, but to a location. Nothing that looks at parents takes notice of
such a location, so an arena still shows a linked one (`Shows`), and every operation does to the
arena what it does to the one that is shown.
-/

namespace JavaFold

/-- The node with no location, if it has no parent. -/
def Node.settled (node : Node) : Node :=
  { node with location := if node.parent.isPresent then node.location else none }

namespace Arena

variable {arena view : Arena} {id x old new parent : NodeId} {location : Location} {node : Node}

/-- A linked arena that differs from another one in locations of parentless nodes at most, and in a
node without a handle. -/
structure Shows (arena view : Arena) : Prop where
  /-- The links of the second arena agree. -/
  linked : view.Linked
  /-- Every node that is shown is there. -/
  size : view.size ≤ arena.size
  /-- The roots are the same. -/
  root : view.root = arena.root
  /-- The texts are the same. -/
  names : view.names = arena.names
  /-- The nodes are the same, but for locations of parentless nodes. -/
  node? : ∀ x, view.node? x = (arena.node? x).map Node.settled

/-- An arena whose links agree shows itself. -/
theorem Linked.shows (hl : arena.Linked) : arena.Shows arena := by
  refine ⟨hl, Nat.le_refl _, rfl, rfl, fun x => ?_⟩
  cases hn : arena.node? x with
  | none => rfl
  | some node =>
    rw [Option.map_some, Node.settled]
    cases hp : node.parent.isPresent with
    | true => rfl
    | false => rw [if_neg (by simp), ← hl.lone hn hp]

namespace Shows

/-- What the arena finds is seen, with the location of a detached node left out. -/
theorem node?_eq_some (h : arena.Shows view) (hn : arena.node? x = some node) :
    view.node? x = some node.settled := by
  rw [h.node?, hn, Option.map_some]

/-- What is seen is found, up to the location of a detached node. -/
theorem exists_node? (h : arena.Shows view) (hn : view.node? x = some node) :
    ∃ node', arena.node? x = some node' ∧ node'.settled = node := by
  rwa [h.node?, Option.map_eq_some_iff] at hn

/-- Parents are seen as they are. -/
theorem parent?_eq (h : arena.Shows view) (x : NodeId) : view.parent? x = arena.parent? x := by
  simp only [parent?, h.node?]
  cases arena.node? x <;> rfl

/-- The same handles are in use. -/
theorem contains_eq (h : arena.Shows view) (x : NodeId) : view.contains x = arena.contains x := by
  rw [Bool.eq_iff_iff, contains_iff, contains_iff]
  constructor
  · rintro ⟨node, hn⟩
    obtain ⟨node', hn', -⟩ := h.exists_node? hn
    exact ⟨node', hn'⟩
  · rintro ⟨node, hn⟩
    exact ⟨_, h.node?_eq_some hn⟩

/-- An attached node is shown as attached. -/
theorem attachedAt (h : arena.Shows view) (hat : arena.AttachedAt id parent location) :
    view.AttachedAt id parent location := by
  obtain ⟨node, pnode, hn, hr, hp, hloc, hpn, hg⟩ := hat
  refine ⟨_, _, h.node?_eq_some hn, h.root ▸ hr, hp, ?_, h.node?_eq_some hpn, hg⟩
  rw [Node.settled, hp, if_pos (isPresent_of_node? hpn), hloc]

/-- A node that is shown as attached is attached. -/
theorem attachedAt_of (h : arena.Shows view) (hat : view.AttachedAt id parent location) :
    arena.AttachedAt id parent location := by
  obtain ⟨shown, pshown, hshown, hr, hp, hloc, hpshown, hg⟩ := hat
  obtain ⟨node, hn, rfl⟩ := h.exists_node? hshown
  obtain ⟨pnode, hpn, rfl⟩ := h.exists_node? hpshown
  have hparent : node.parent = parent := hp
  rw [Node.settled, hparent, if_pos (isPresent_of_node? hpn)] at hloc
  exact ⟨node, pnode, hn, h.root ▸ hr, hparent, hloc, hpn, hg⟩

/-- Lying under a node is seen as it is. -/
theorem under_iff (h : arena.Shows view) : view.Under x id ↔ arena.Under x id :=
  ⟨fun hu => hu.congr fun z => (h.parent?_eq z).symm, fun hu => hu.congr h.parent?_eq⟩

/-- No node lies under one of its own children. -/
theorem not_under_parent (h : arena.Shows view) (hx : arena.parent? x = some parent) :
    ¬ arena.Under x parent := by
  rw [← h.under_iff]
  exact h.linked.not_under_parent ((h.parent?_eq x).trans hx)

/-- The search for an ancestor sees every node above, whether or not all nodes have handles. -/
theorem isAncestorOrSelf_iff (h : arena.Shows view) (hn : arena.node? id = some node) :
    arena.isAncestorOrSelf x id = true ↔ arena.Under x id := by
  obtain ⟨n, hd⟩ := h.linked.grounded (h.node?_eq_some hn)
  have hsteps : n ≤ arena.size :=
    (h.linked.depth_lt_size hd (h.node?_eq_some hn)).le.trans h.size
  have hdepth : arena.Depth id n := hd.congr fun z _ => (h.parent?_eq z).symm
  rw [isAncestorOrSelf, List.contains_iff_mem, ancestry, mem_ancestryUpTo hdepth hsteps]

/-- The links between a node that has a handle and its children agree. -/
theorem linkedAt (h : arena.Shows view) {pnode : Node} (hp : arena.node? parent = some pnode) :
    arena.LinkedAt parent pnode.kind := by
  have hshown : view.LinkedAt parent pnode.settled.kind := h.linked.linkedAt (h.node?_eq_some hp)
  have hpp : parent.isPresent = true := isPresent_of_node? hp
  constructor
  · intro l c hc
    obtain ⟨child', hchild', hpar, hloc⟩ := hshown.down hc
    obtain ⟨child, hchild, rfl⟩ := h.exists_node? hchild'
    have hpar' : child.parent = parent := hpar
    rw [Node.settled, hpar', if_pos hpp] at hloc
    exact ⟨child, hchild, hpar', hloc⟩
  · intro c child hchild hpar
    obtain ⟨l, hloc, hg⟩ := hshown.up (h.node?_eq_some hchild) hpar
    rw [Node.settled, hpar, if_pos hpp] at hloc
    exact ⟨l, hloc, hg⟩

/-- A replacement is accepted by the arena if what is seen allows it. -/
theorem checkReplacement_eq_ok_iff (h : arena.Shows view) :
    arena.checkReplacement old new = .ok (parent, location) ↔
      arena.Replaceable old new parent location :=
  Arena.checkReplacement_eq_ok_iff h.isAncestorOrSelf_iff

/-- What can be replaced can be replaced in what is shown. -/
theorem replaceable (h : arena.Shows view) (hr : arena.Replaceable old new parent location) :
    view.Replaceable old new parent location := by
  obtain ⟨node, hn, hp⟩ := hr.parentless
  exact ⟨h.attachedAt hr.attached, ⟨_, h.node?_eq_some hn, hp⟩, h.root ▸ hr.ne_root,
    fun hu => hr.not_under (h.under_iff.1 hu)⟩

/-- What can be replaced in what is shown can be replaced. -/
theorem replaceable_of (h : arena.Shows view) (hr : view.Replaceable old new parent location) :
    arena.Replaceable old new parent location := by
  obtain ⟨shown, hshown, hp⟩ := hr.parentless
  obtain ⟨node, hn, rfl⟩ := h.exists_node? hshown
  exact ⟨h.attachedAt_of hr.attached, ⟨node, hn, hp⟩, h.root ▸ hr.ne_root,
    fun hu => hr.not_under (h.under_iff.2 hu)⟩

/-! ## Changes -/

/-- A new name is seen. -/
theorem withNames (h : arena.Shows view) (names : Interner) :
    ({ arena with names := names } : Arena).Shows { view with names := names } :=
  ⟨h.linked.withNames names, h.size, h.root, rfl, h.node?⟩

/-- A new root is seen. -/
theorem withRoot (h : arena.Shows view) (hn : arena.node? id = some node)
    (hp : node.parent.isPresent = false) :
    ({ arena with root := id } : Arena).Shows { view with root := id } :=
  ⟨h.linked.withRoot (h.node?_eq_some hn) hp, h.size, rfl, h.names, h.node?⟩

/-- A replacement is seen as the same replacement. -/
theorem replaced (h : arena.Shows view) (hr : view.Replaceable old new parent location) :
    (arena.replaced old new parent location).Shows (view.replaced old new parent location) := by
  refine ⟨h.linked.replaced hr, by simpa using h.size, h.root, h.names, fun x => ?_⟩
  rw [node?_replaced, node?_replaced, h.node?]
  obtain ⟨-, pnode, -, -, -, -, hpn, -⟩ := hr.attached
  have hpp : parent.isPresent = true := isPresent_of_node? hpn
  cases arena.node? x with
  | none => rfl
  | some node =>
    simp only [Option.map_some, Node.settled, Option.some.injEq, Node.mk.injEq, true_and]
    split_ifs <;> simp_all

end Shows

/-! ## Removal -/

section Removal

/-- A change of one node is shown, if it does the same to the node without its location. -/
theorem node?_modifyNode_settled (h : ∀ x, view.node? x = (arena.node? x).map Node.settled)
    {change : Node → Node}
    (hc : ∀ node, arena.node? id = some node → change node.settled = (change node).settled)
    (x : NodeId) :
    (view.modifyNode id change).node? x =
      ((arena.modifyNode id change).node? x).map Node.settled := by
  rw [node?_modifyNode, node?_modifyNode, h]
  split
  next hx =>
    subst hx
    cases hn : arena.node? x with
    | none => rfl
    | some node =>
      rw [Option.map_some, Option.map_some, hc node hn]
      rfl
  next => rfl

private theorem parent?_modifyNode {change : Node → Node}
    (hc : ∀ node, (change node).parent = node.parent)
    (id x : NodeId) : (arena.modifyNode id change).parent? x = arena.parent? x := by
  rw [parent?, parent?, node?_modifyNode]
  split
  next =>
    cases arena.node? x with
    | none => rfl
    | some node => rw [Option.map_some, Option.bind_some, Option.bind_some, hc]
  next => rfl

/-- New numbers of list elements are shown, since the elements have a parent. -/
theorem node?_renumber_settled (h : ∀ x, view.node? x = (arena.node? x).map Node.settled)
    (property : Property) (index : Nat) {ids : List NodeId}
    (hp : ∀ c ∈ ids, arena.parent? c = some parent) (x : NodeId) :
    (view.renumber property index ids).node? x =
      ((arena.renumber property index ids).node? x).map Node.settled := by
  induction ids generalizing arena view index with
  | nil => exact h x
  | cons c rest ih =>
    rw [renumber, renumber]
    refine ih (node?_modifyNode_settled h fun node hn => ?_) (index + 1) fun d hd => ?_
    · obtain ⟨node', hn', rfl, hparent⟩ := parent?_eq_some.1 (hp c List.mem_cons_self)
      cases Option.some.inj (hn.symm.trans hn')
      simp only [Node.settled, hparent, if_true]
    · exact (parent?_modifyNode (by simp) c d).trans (hp d (List.mem_cons_of_mem c hd))

/-- What is left in a list after a removal are children of the node. -/
theorem Linked.parent?_of_mem_erased (hl : arena.Linked) (hn : arena.node? parent = some node)
    {property : Property} {index : Nat} {c : NodeId}
    (hc : c ∈ ((node.kind.erase (.element property index) .absent).list? property).getD []) :
    arena.parent? c = some parent := by
  simp only [NodeKind.erase, NodeKind.modifyList, NodeKind.list?_modify] at hc
  cases hids : node.kind.list? property with
  | none => simp [hids] at hc
  | some ids =>
    simp only [hids, Option.map_some, Option.getD_some, if_true] at hc
    obtain ⟨i, hi⟩ := List.mem_iff_getElem?.1 (List.mem_of_mem_eraseIdx hc)
    obtain ⟨child, hchild, rfl, -⟩ := hl.down hn
      (NodeKind.mem_children_element.2 ⟨ids, NodeKind.list?_eq_some.1 hids, hi⟩)
    exact parent?_eq_some.2 ⟨child, hchild, rfl, isPresent_of_node? hn⟩

/-- A removal is seen as the same removal. -/
theorem Shows.withoutChild (h : arena.Shows view) (hat : view.AttachedAt id parent location) :
    (arena.withoutChild parent location id).Shows (view.withoutChild parent location id) := by
  refine ⟨h.linked.withoutChild hat, by simpa using h.size, by simpa using h.root,
    by simpa using h.names, ?_⟩
  have hkind : ∀ x, (view.modifyKind parent (·.erase location .absent)).node? x =
      ((arena.modifyKind parent (·.erase location .absent)).node? x).map Node.settled :=
    node?_modifyNode_settled h.node? fun _ _ => rfl
  have hunlinked (node : Node) :
      ({ node.settled with parent := .absent, location := none } : Node) =
        ({ node with parent := .absent, location := none } : Node).settled := by
    simp [Node.settled]
  cases location with
  | single property => exact node?_modifyNode_settled hkind fun node _ => hunlinked node
  | element property index =>
    obtain ⟨-, pnode, -, -, -, -, hpn, -⟩ := hat
    obtain ⟨pnode', hpn', rfl⟩ := h.exists_node? hpn
    simp only [Arena.withoutChild]
    have hlist {shown : Arena} {node : Node} (hn : shown.node? parent = some node) :
        ((shown.modifyKind parent (·.erase (.element property index) .absent)).node? parent).bind
          (·.kind.list? property) =
        (node.kind.erase (.element property index) .absent).list? property := by
      rw [modifyKind, node?_modifyNode, if_pos rfl, hn]
      rfl
    rw [hlist hpn, hlist hpn']
    have hlater : ∀ c ∈ (((pnode'.kind.erase (.element property index) .absent).list?
        property).getD []).drop index, (arena.modifyKind parent
          (·.erase (.element property index) .absent)).parent? c = some parent := by
      intro c hc
      have hparent := h.linked.parent?_of_mem_erased hpn (List.mem_of_mem_drop hc)
      rw [h.parent?_eq] at hparent
      exact (parent?_modifyNode (by simp) parent c).trans hparent
    exact node?_modifyNode_settled (node?_renumber_settled hkind property index hlater)
      fun node _ => hunlinked node

end Removal

/-! ## Allocation -/

section Allocation

variable {kind : ArenaKind} {span : Span}

/-- A node without a handle is not shown: its children stay parentless. -/
theorem Linked.shows_push (hl : arena.Linked) (h : arena.Adoptable kind)
    (hs : arena.size = NodeId.maxIndex) : (arena.push kind span).Shows arena := by
  have habsent : (⟨arena.size⟩ : NodeId) = .absent := by rw [hs, NodeId.absent]
  have hpushed (node : Node) (x : NodeId) :
      ({ arena with nodes := arena.nodes.push node } : Arena).node? x = arena.node? x := by
    simp only [node?]
    split
    next hp =>
      have hne : x.index ≠ arena.nodes.size := by
        intro he
        exact NodeId.isPresent_iff.1 hp (habsent ▸ congrArg NodeId.mk he)
      rw [Array.getElem?_push, if_neg hne]
    next => rfl
  refine ⟨hl, by simp, by simp, by simp, fun x => ?_⟩
  by_cases hx : x ∈ kind.children.map Prod.snd
  · obtain ⟨⟨l, c⟩, hc, rfl⟩ := List.mem_map.1 hx
    obtain ⟨node, hn, -, hp⟩ := h.attachable _ hx
    rw [Arena.push, node?_foldl_link_of_mem _ h.nodup hc, hpushed, hn, habsent]
    have hparent : node.parent = .absent := not_not.1 (mt NodeId.isPresent_iff.2 (by simp [hp]))
    simp [Node.settled, ← hparent, hp, ← hl.lone hn hp]
  · rw [Arena.push, node?_foldl_link_of_not_mem _ _ hx, hpushed]
    exact hl.shows.node? x

/-- A child is given its location, whether or not a handle leads to its parent. -/
theorem Adoptable.location?_push (h : arena.Adoptable kind) {location : Location}
    (hx : (location, x) ∈ kind.children) :
    (arena.push kind span).location? x = some location := by
  obtain ⟨node, hn, -, -⟩ := h.attachable x (List.mem_map_of_mem hx)
  rw [location?, push, node?_foldl_link_of_mem _ h.nodup hx, node?_nodes_push hn]
  rfl

end Allocation

/-! ## Every operation -/

/-- An arena that shows a linked one, and is linked itself unless there are more nodes than
handles. -/
structure Showing (arena : Arena) : Prop where
  /-- The links agree while handles last. -/
  small : arena.LinkedIfSmall
  /-- There is a linked arena that is shown. -/
  shows : ∃ view, arena.Shows view

end Arena

namespace Edit

open Arena

private theorem shows_intern (text : String) : Keeps Showing (intern text) := by
  rintro arena ⟨hs, view, h⟩
  exact ⟨keeps_intern text arena hs, _, h.withNames _⟩

/-- A new node keeps an arena showing; the one behind the last handle is not seen. -/
theorem shows_alloc (kind : ArenaKind) (span : Span) : Keeps Showing (alloc kind span) := by
  rintro arena ⟨hs, h⟩
  refine ⟨keeps_alloc kind span arena hs, ?_⟩
  rw [after, run_alloc]
  by_cases hm : NodeId.maxIndex < arena.size
  · rw [if_pos hm]
    exact h
  · rw [if_neg hm]
    cases hc : arena.checkNew kind with
    | error v => exact h
    | ok u =>
      have hl := hs (by omega)
      have had := (checkNew_eq_ok (by omega)).1 hc
      rcases Nat.lt_or_ge arena.size NodeId.maxIndex with hlt | hge
      · exact ⟨_, (hl.push hlt had).shows⟩
      · exact ⟨_, hl.shows_push had (by omega)⟩

/-- The choice of a root keeps an arena showing. -/
theorem shows_setRoot (id : NodeId) : Keeps Showing (setRoot id) := by
  rintro arena ⟨hs, view, h⟩
  refine ⟨keeps_setRoot id arena hs, ?_⟩
  rw [after, run_setRoot]
  cases hc : arena.checkParentless id with
  | error v => exact ⟨view, h⟩
  | ok u =>
    obtain ⟨node, hn, hp⟩ := checkParentless_eq_ok.1 hc
    exact ⟨_, h.withRoot hn hp⟩

/-- A replacement keeps an arena showing. -/
theorem shows_replaceChild (old new : NodeId) : Keeps Showing (replaceChild old new) := by
  rintro arena ⟨hs, view, h⟩
  refine ⟨keeps_replaceChild old new arena hs, ?_⟩
  rw [after, run_replaceChild]
  cases hc : arena.checkReplacement old new with
  | error v => exact ⟨view, h⟩
  | ok slot => exact ⟨_, h.replaced (h.replaceable (h.checkReplacement_eq_ok_iff.1 hc))⟩

private theorem shows_removeChild (id : NodeId) : Keeps Showing (removeChild id) := by
  rintro arena ⟨hs, view, h⟩
  refine ⟨keeps_removeChild id arena hs, ?_⟩
  rw [after, run_removeChild]
  cases hc : arena.checkRemoval id with
  | error v => exact ⟨view, h⟩
  | ok slot => exact ⟨_, h.withoutChild (h.attachedAt (checkRemoval_eq_ok.1 hc).1)⟩

end Edit

private theorem Operation.showing_perform {arena : Arena} (h : arena.Showing)
    (operation : Operation) :
    (operation.perform arena).Showing :=
  keeps_perform Edit.shows_alloc Edit.shows_intern Edit.shows_setRoot Edit.shows_replaceChild
    Edit.shows_removeChild h operation

namespace Arena

/-- Every arena that operations lead to shows a linked one, however many nodes there are. -/
theorem Reachable.exists_shows {arena : Arena} (h : arena.Reachable) :
    ∃ view, arena.Shows view := by
  have hshowing : arena.Showing := by
    induction h with
    | empty => exact ⟨fun _ => linked_empty, _, linked_empty.shows⟩
    | perform _ operation ih => exact operation.showing_perform ih
  exact hshowing.shows

/-- The children of every node can be listed, in every arena that operations lead to. -/
theorem Reachable.childSlots_eq {arena : Arena} {id : NodeId} {node : Node} (h : arena.Reachable)
    (hn : arena.node? id = some node) : node.kind.childSlots = .ok node.kind.children := by
  obtain ⟨view, hshows⟩ := h.exists_shows
  have hlistable : node.settled.kind.Listable :=
    hshows.linked.listable (hshows.node?_eq_some hn)
  exact NodeKind.childSlots_of_listable hlistable

/-! ## Trees -/

namespace Shows

variable {arena arena' view view' : Arena} {id x : NodeId} {node : Node}

/-- Trees are seen as they are, to any depth, as locations do not stand in them. -/
theorem treeUpTo_eq (h : arena.Shows view) (depth : Nat) (id : NodeId) :
    view.treeUpTo depth id = arena.treeUpTo depth id := by
  induction depth generalizing id with
  | zero => rfl
  | succ depth ih =>
    rw [treeUpTo, treeUpTo, h.node?, h.names]
    cases arena.node? id with
    | none => rfl
    | some node => exact congrArg _ (NodeKind.map_congr fun c _ => ih c)

/-- The trees that are shown are those of the arena. -/
theorem tree_eq (h : arena.Shows view) (id : NodeId) : view.tree id = arena.tree id := by
  cases hn : view.node? id with
  | none =>
    rw [tree_of_node?_eq_none hn, tree_of_node?_eq_none]
    rwa [h.node?, Option.map_eq_none_iff] at hn
  | some node =>
    obtain ⟨n, hd⟩ := h.linked.grounded hn
    have hsize := h.size
    rw [tree, tree, ← h.treeUpTo_eq]
    exact h.linked.treeUpTo_eq hd hn (by omega) (by omega)

/-- The tree of a node is made of the trees of its children. -/
theorem tree_node (h : arena.Shows view) (hn : arena.node? id = some node) :
    arena.tree id = .node ⟨id, node.span⟩ (node.kind.map arena.names.lookup arena.tree) := by
  rw [← h.tree_eq, h.linked.tree_eq (h.node?_eq_some hn), h.names]
  exact congrArg _ (NodeKind.map_congr fun c _ => h.tree_eq c)

/-- The nodes under a node are the node itself and those under its children. -/
theorem descendants_node (h : arena.Shows view) (hn : arena.node? id = some node) :
    arena.descendants id = id :: node.kind.occupants.flatMap arena.descendants := by
  rw [descendants, h.tree_node hn, Tree.preorder_node, NodeKind.occupants_map, List.map_cons,
    List.flatMap_map, List.map_flatMap]
  rfl

/-- A child is there. -/
theorem contains_of_mem_children (h : arena.Shows view) (hn : arena.node? id = some node)
    {location : Location} (hx : (location, x) ∈ node.kind.children) :
    arena.contains x = true := by
  obtain ⟨child, hchild, -⟩ := (h.linkedAt hn).down hx
  exact contains_iff.2 ⟨child, hchild⟩

/-- A subtree is the same in two arenas that show something if each of its nodes is, links aside. -/
theorem tree_congr (h : arena.Shows view) (h' : arena'.Shows view')
    (hnames : arena'.names = arena.names) (hn : arena.node? id = some node)
    (hkept : ∀ {y ynode}, arena.node? y = some ynode → arena.Under id y →
      ∃ node', arena'.node? y = some node' ∧ node'.kind = ynode.kind ∧ node'.span = ynode.span) :
    arena'.tree id = arena.tree id := by
  rw [← h.tree_eq, ← h'.tree_eq]
  refine h.linked.tree_congr h'.linked ?_ (h.node?_eq_some hn) fun y ynode hy hu => ?_
  · rw [h'.names, h.names, hnames]
  · obtain ⟨ynode', hy', rfl⟩ := h.exists_node? hy
    obtain ⟨node', hn', hkind, hspan⟩ := hkept hy' (h.under_iff.1 hu)
    exact ⟨_, h'.node?_eq_some hn', hkind, hspan⟩

/-- A tree stays as it is if the only node of another kind does not lie in it. -/
theorem tree_congr_outside (h : arena.Shows view) (h' : arena'.Shows view')
    (hnames : arena'.names = arena.names) (hn : arena.node? id = some node)
    (hid : ¬ arena.Under id x)
    (hkept : ∀ {y ynode}, arena.node? y = some ynode → y ≠ x →
      ∃ node', arena'.node? y = some node' ∧ node'.kind = ynode.kind ∧ node'.span = ynode.span) :
    arena'.tree id = arena.tree id := by
  refine h.tree_congr h' hnames hn fun hy hu => hkept hy ?_
  rintro rfl
  exact hid hu

end Shows

end Arena

end JavaFold
