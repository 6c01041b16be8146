import JavaFold.Proofs.Arena.Outcome
import JavaFold.Proofs.Tree.Shape
import Mathlib.Data.List.Perm.Subperm

/-!
# The tree under a node

In a linked arena the number of nodes is enough steps to see the whole tree under a node, so the
tree of a node is made of the trees of its children (`Linked.tree_eq`). A tree only depends on the
kinds and the source ranges of the nodes under its top (`Linked.tree_congr`).
-/

namespace JavaFold.Arena

variable {arena arena' : Arena} {id x y z parent : NodeId} {node : Node}

private theorem treeUpTo_of_node?_eq_none (h : arena.node? id = none) (depth : Nat) :
    arena.treeUpTo depth id = .absent := by
  cases depth with
  | zero => rfl
  | succ depth => rw [treeUpTo, h]

/-- Under a handle without a node there is nothing. -/
theorem tree_of_node?_eq_none (h : arena.node? id = none) : arena.tree id = .absent :=
  treeUpTo_of_node?_eq_none h _

@[simp] theorem tree_absent (arena : Arena) : arena.tree .absent = .absent :=
  tree_of_node?_eq_none (node?_absent arena)

@[simp] theorem postorder_absent (arena : Arena) : arena.postorder .absent = [] := by
  rw [postorder, tree_absent]
  rfl

/-- The nodes of a subtree in postorder are those in preorder. -/
theorem postorder_perm (arena : Arena) (id : NodeId) :
    (arena.postorder id).Perm (arena.descendants id) :=
  (Tree.postorder_perm _).map _

/-- A subtree has as many nodes in the one order as in the other. -/
theorem length_postorder (arena : Arena) (id : NodeId) :
    (arena.postorder id).length = (arena.descendants id).length :=
  (postorder_perm arena id).length_eq

namespace Linked

/-- What a child position holds is a child of the node, or no node. -/
theorem occupant_cases (hl : arena.Linked) (hn : arena.node? id = some node)
    (hx : x ∈ node.kind.occupants) :
    x = .absent ∨ ∃ location child, (location, x) ∈ node.kind.children ∧
      arena.node? x = some child ∧ child.parent = id ∧ child.location = some location := by
  by_cases hp : x.isPresent = true
  · obtain ⟨location, hg⟩ := NodeKind.mem_occupants_iff.1 hx
    have hc := NodeKind.mem_children_of_get? hg hp
    obtain ⟨child, hchild, hpar, hloc⟩ := hl.down hn hc
    exact .inr ⟨location, child, hc, hchild, hpar, hloc⟩
  · exact .inl (not_not.1 (mt NodeId.isPresent_iff.2 hp))

/-- An occupant of a slot has the node of the slot for its parent. -/
theorem parent?_of_mem_occupants (hl : arena.Linked) (hn : arena.node? id = some node)
    (hx : x ∈ node.kind.occupants) (hp : x ≠ .absent) : arena.parent? x = some id := by
  rcases hl.occupant_cases hn hx with rfl | ⟨_, child, -, hchild, rfl, -⟩
  · exact absurd rfl hp
  · exact parent?_eq_some.2 ⟨child, hchild, rfl, isPresent_of_node? hn⟩

/-- A listed child has the node that lists it for its parent. -/
theorem parent?_of_mem_children (hl : arena.Linked) (hn : arena.node? id = some node)
    (hx : x ∈ node.kind.children.map Prod.snd) : arena.parent? x = some id := by
  obtain ⟨⟨l, c⟩, hm, rfl⟩ := List.mem_map.1 hx
  obtain ⟨child, hchild, rfl, -⟩ := hl.down hn hm
  exact parent?_eq_some.2 ⟨child, hchild, rfl, isPresent_of_node? hn⟩

/-- A node is among the occupants of its parent. -/
theorem mem_occupants_of_parent? (hl : arena.Linked) (h : arena.parent? x = some id)
    (hn : arena.node? id = some node) : x ∈ node.kind.occupants := by
  obtain ⟨child, hchild, rfl, hp⟩ := parent?_eq_some.1 h
  obtain ⟨location, node', -, hn', hg⟩ := hl.up hchild hp
  cases Option.some.inj (hn.symm.trans hn')
  exact NodeKind.mem_occupants_iff.2 ⟨location, hg⟩

/-- More steps than there can be levels below a node make no difference. -/
theorem treeUpTo_eq (hl : arena.Linked) {n d e : Nat} (hd : arena.Depth id n)
    (hn : arena.node? id = some node) (hdn : arena.size ≤ d + n) (hen : arena.size ≤ e + n) :
    arena.treeUpTo d id = arena.treeUpTo e id := by
  have hlt := hl.depth_lt_size hd hn
  induction d generalizing id n e node with
  | zero => omega
  | succ d ih =>
    obtain ⟨e, rfl⟩ : ∃ k, e = k + 1 := ⟨e - 1, by omega⟩
    simp only [treeUpTo, hn]
    refine congrArg _ (NodeKind.map_congr fun c hc => ?_)
    rcases hl.occupant_cases hn hc with rfl | ⟨_, child, -, hchild, rfl, -⟩
    · rw [treeUpTo_of_node?_eq_none (node?_absent _), treeUpTo_of_node?_eq_none (node?_absent _)]
    · have hdc : arena.Depth c (n + 1) :=
        .up (parent?_eq_some.2 ⟨child, hchild, rfl, isPresent_of_node? hn⟩) hd
      exact ih hdc hchild (by omega) (by omega) (hl.depth_lt_size hdc hchild)

/-- The tree of a node is made of the trees of its children. -/
theorem tree_eq (hl : arena.Linked) (hn : arena.node? id = some node) :
    arena.tree id = .node ⟨id, node.span⟩ (node.kind.map arena.names.lookup arena.tree) := by
  obtain ⟨n, hd⟩ := hl.grounded hn
  have hlt := hl.depth_lt_size hd hn
  have hsucc : arena.tree id = arena.treeUpTo (arena.size + 1) id :=
    hl.treeUpTo_eq hd hn (by omega) (by omega)
  rw [hsucc, treeUpTo, hn]
  rfl

/-- In postorder the occupants of the slots come one after the other, and the node last. -/
theorem postorder_eq_occupants (hl : arena.Linked) (hn : arena.node? id = some node) :
    arena.postorder id = node.kind.occupants.flatMap arena.postorder ++ [id] := by
  rw [postorder, hl.tree_eq hn, Tree.postorder_node, NodeKind.occupants_map, List.map_append,
    List.map_singleton, List.flatMap_map, List.map_flatMap]
  rfl

/-- In postorder the listed children come one after the other, and the node last; an empty slot adds
nothing. -/
theorem postorder_eq (hl : arena.Linked) (hn : arena.node? id = some node) :
    arena.postorder id = (node.kind.children.map Prod.snd).flatMap arena.postorder ++ [id] := by
  have habsent : ∀ c : NodeId, Occupant.isPresent c = false → arena.postorder c = [] := by
    intro c hc
    have hc' : c = .absent := by simpa [Occupant.isPresent, NodeId.isPresent] using hc
    rw [hc', postorder_absent]
  rw [← NodeKind.flatMap_occupants _ habsent, hl.postorder_eq_occupants hn]

/-- The children of a node are different nodes. -/
theorem children_nodup (hl : arena.Linked) (hn : arena.node? id = some node) :
    (node.kind.children.map Prod.snd).Nodup := by
  have hlocations := node.kind.children_nodup
  rw [List.Nodup, List.pairwise_map] at hlocations ⊢
  refine hlocations.imp_of_mem ?_
  rintro ⟨l, c⟩ ⟨k, d⟩ hc hd hne he
  obtain ⟨child, hchild, -, hloc⟩ := hl.down hn hc
  obtain ⟨child', hchild', -, hloc'⟩ := hl.down hn hd
  have he' : c = d := he
  rw [he'] at hchild
  cases Option.some.inj (hchild.symm.trans hchild')
  exact hne (Option.some.inj (hloc.symm.trans hloc'))

/-- No node holds a list too long to be listed. -/
theorem listable (hl : arena.Linked) (hn : arena.node? id = some node) : node.kind.Listable := by
  refine listable_of_nodup hl.small (hl.children_nodup hn) fun c hc => ?_
  obtain ⟨⟨location, c⟩, hm, rfl⟩ := List.mem_map.1 hc
  obtain ⟨child, hchild, -⟩ := hl.down hn hm
  exact ⟨child, hchild⟩

/-! ## Separate parts of an arena -/

/-- Induction downwards: a node may assume the statement of all its child positions. -/
theorem byOccupants (hl : arena.Linked) {motive : NodeId → Prop} (absent : motive .absent)
    (node : ∀ id node, arena.node? id = some node → (∀ c ∈ node.kind.occupants, motive c) →
      motive id) (hn : ∃ node, arena.node? id = some node) : motive id := by
  obtain ⟨inode, hn⟩ := hn
  obtain ⟨n, hd⟩ := hl.grounded hn
  -- the induction is on how far the depth is from its bound, the number of nodes
  obtain ⟨k, hk⟩ : ∃ k, k = arena.size - n := ⟨_, rfl⟩
  induction k generalizing id n inode with
  | zero =>
    have := hl.depth_lt_size hd hn
    omega
  | succ k ih =>
    refine node id inode hn fun c hc => ?_
    rcases hl.occupant_cases hn hc with rfl | ⟨_, child, -, hchild, rfl, -⟩
    · exact absent
    · exact ih child hchild (n + 1)
        (.up (parent?_eq_some.2 ⟨child, hchild, rfl, isPresent_of_node? hn⟩) hd) (by omega)

/-- An occupant of a slot lies under the node. -/
theorem under_occupant (hl : arena.Linked) (hn : arena.node? id = some node)
    (hx : x ∈ node.kind.occupants) (hp : x ≠ .absent) : arena.Under id x :=
  .step (hl.parent?_of_mem_occupants hn hx hp) .self

/-- Nothing lies under the handle that means nothing. -/
theorem descendants_absent (arena : Arena) : arena.descendants .absent = [] := by
  rw [descendants, tree_absent]
  rfl

/-- In preorder the node comes first, and then the occupants of its slots one after the other. -/
theorem descendants_eq (hl : arena.Linked) (hn : arena.node? id = some node) :
    arena.descendants id = id :: node.kind.occupants.flatMap arena.descendants := by
  rw [descendants, hl.tree_eq hn, Tree.preorder_node, NodeKind.occupants_map, List.map_cons,
    List.flatMap_map, List.map_flatMap]
  rfl

/-- The way down goes through the nodes under one child after the other. -/
theorem descendants_eq_children (hl : arena.Linked) (hn : arena.node? id = some node) :
    arena.descendants id = id :: (node.kind.children.map Prod.snd).flatMap arena.descendants := by
  rw [hl.descendants_eq hn, NodeKind.flatMap_occupants]
  intro c hc
  have hc' : c = .absent := by simpa [Occupant.isPresent, NodeId.isPresent] using hc
  rw [hc', descendants_absent]

/-- A child of a node met on the way down is met too. -/
theorem occupant_mem_descendants (hl : arena.Linked) (hn : arena.node? id = some node)
    (hy : y ∈ arena.descendants id) (hx : arena.parent? x = some y) :
    x ∈ arena.descendants id := by
  revert hy
  refine hl.byOccupants (motive := fun id => y ∈ arena.descendants id → x ∈ arena.descendants id)
    (fun hy => by simp [descendants_absent] at hy) ?_ ⟨node, hn⟩
  intro id node hn ih hy
  rw [hl.descendants_eq hn] at hy ⊢
  refine List.mem_cons_of_mem _ (List.mem_flatMap.2 ?_)
  rcases List.mem_cons.1 hy with rfl | hy
  · obtain ⟨xnode, hxn, -⟩ := parent?_eq_some.1 hx
    refine ⟨x, hl.mem_occupants_of_parent? hx hn, ?_⟩
    rw [hl.descendants_eq hxn]
    exact List.mem_cons_self
  · obtain ⟨c, hc, hy⟩ := List.mem_flatMap.1 hy
    exact ⟨c, hc, ih c hc hy⟩

/-- The way down meets exactly the nodes from which the way up leads back. -/
theorem mem_descendants_iff (hl : arena.Linked) (hn : arena.node? id = some node) :
    x ∈ arena.descendants id ↔ arena.Under id x := by
  constructor
  · refine hl.byOccupants (motive := fun id => x ∈ arena.descendants id → arena.Under id x)
      (fun hx => by simp [descendants_absent] at hx) ?_ ⟨node, hn⟩
    intro id node hn ih hx
    rw [hl.descendants_eq hn] at hx
    rcases List.mem_cons.1 hx with rfl | hx
    · exact .self
    · obtain ⟨c, hc, hx⟩ := List.mem_flatMap.1 hx
      have hca : c ≠ .absent := by
        rintro rfl
        simp [descendants_absent] at hx
      exact (hl.under_occupant hn hc hca).trans (ih c hc hx)
  · intro hu
    induction hu with
    | self =>
      rw [hl.descendants_eq hn]
      exact List.mem_cons_self
    | step hp _ ih => exact hl.occupant_mem_descendants hn ih hp

/-- The nodes in postorder are exactly those that lie under the top. -/
theorem mem_postorder_iff (hl : arena.Linked) (hn : arena.node? id = some node) :
    x ∈ arena.postorder id ↔ arena.Under id x := by
  rw [← hl.mem_descendants_iff hn, (arena.postorder_perm id).mem_iff]

/-- A tree only depends on the kinds, the texts and the source ranges of the nodes under its top. -/
theorem tree_congr_texts (hl : arena.Linked) (hl' : arena'.Linked)
    (hn : arena.node? id = some node)
    (h : ∀ x node, arena.node? x = some node → arena.Under id x →
      (∃ node', arena'.node? x = some node' ∧ node'.kind = node.kind ∧ node'.span = node.span) ∧
        ∀ name ∈ node.kind.texts, arena'.names.lookup name = arena.names.lookup name) :
    arena'.tree id = arena.tree id := by
  have hall : ∀ x, (∃ node, arena.node? x = some node) → arena.Under id x →
      arena'.tree x = arena.tree x := by
    intro x hx
    refine hl.byOccupants (motive := fun x => arena.Under id x → arena'.tree x = arena.tree x)
      ?_ ?_ hx
    · intro _
      rw [tree_absent, tree_absent]
    · intro x node hn ih hu
      obtain ⟨⟨node', hn', hkind, hspan⟩, htexts⟩ := h x node hn hu
      rw [hl.tree_eq hn, hl'.tree_eq hn', hkind, hspan, NodeKind.map_congr_texts htexts]
      refine congrArg _ (NodeKind.map_congr fun c hc => ?_)
      by_cases hp : c = .absent
      · rw [hp, tree_absent, tree_absent]
      · exact ih c hc (hu.trans (hl.under_occupant hn hc hp))
  exact hall id ⟨node, hn⟩ .self

/-- A subtree is the same in two arenas if each of its nodes is, links aside. -/
theorem tree_congr (hl : arena.Linked) (hl' : arena'.Linked) (hnames : arena'.names = arena.names)
    (hn : arena.node? id = some node)
    (h : ∀ x node, arena.node? x = some node → arena.Under id x →
      ∃ node', arena'.node? x = some node' ∧ node'.kind = node.kind ∧ node'.span = node.span) :
    arena'.tree id = arena.tree id :=
  hl.tree_congr_texts hl' hn fun x node hn hu => ⟨h x node hn hu, fun name _ => by rw [hnames]⟩

/-- If the nodes under a node keep their kinds, no others come to lie under it. -/
theorem under_congr (hl : arena.Linked) (hl' : arena'.Linked) (hn : arena.node? id = some node)
    (h : ∀ x node, arena.node? x = some node → arena.Under id x →
      ∃ node', arena'.node? x = some node' ∧ node'.kind = node.kind)
    (hu : arena'.Under id x) : arena.Under id x := by
  have hall : ∀ x, arena'.Under id x → arena.Under id x ∧ ∃ node, arena.node? x = some node := by
    intro x hu
    induction hu with
    | self => exact ⟨.self, node, hn⟩
    | @step x q hp hu ih =>
      obtain ⟨hq, qnode, hqn⟩ := ih
      obtain ⟨qnode', hqn', hkind⟩ := h q qnode hqn hq
      have hx : x ∈ qnode.kind.occupants := hkind ▸ hl'.mem_occupants_of_parent? hp hqn'
      obtain ⟨xnode, hxn, -⟩ := parent?_eq_some.1 hp
      have hxa : x ≠ .absent := NodeId.isPresent_iff.1 (isPresent_of_node? hxn)
      have hp' := hl.parent?_of_mem_occupants hqn hx hxa
      obtain ⟨xnode', hxn', -⟩ := parent?_eq_some.1 hp'
      exact ⟨.step hp' hq, xnode', hxn'⟩
  exact (hall x hu).1

/-- No node lies under two different children of one node. -/
theorem not_under_of_siblings (hl : arena.Linked) (hx : arena.parent? x = some parent)
    (hy : arena.parent? y = some parent) (hne : x ≠ y) (hz : arena.Under x z) :
    ¬ arena.Under y z := by
  intro hz'
  -- one of the two would lie under the other and so under its own parent
  have hapart : ∀ {x y}, arena.parent? x = some parent → arena.parent? y = some parent → x ≠ y →
      ¬ arena.Under x y := by
    intro x y hx hy hne hu
    cases hu with
    | self => exact hne rfl
    | step h hu' =>
      rw [Option.some.inj (h.symm.trans hy)] at hu'
      obtain ⟨node, hn, -⟩ := parent?_eq_some.1 hx
      obtain ⟨n, hd⟩ := hl.grounded hn
      exact hd.not_under_parent hx hu'
  rcases hz.total hz' with hu | hu
  · exact hapart hx hy hne hu
  · exact hapart hy hx hne.symm hu

/-- No node lies under one of its own children. -/
theorem not_under_parent (hl : arena.Linked) (hx : arena.parent? x = some parent) :
    ¬ arena.Under x parent := by
  obtain ⟨node, hn, -⟩ := parent?_eq_some.1 hx
  obtain ⟨n, hd⟩ := hl.grounded hn
  exact hd.not_under_parent hx

/-- The way down meets no node twice. -/
theorem descendants_nodup (hl : arena.Linked) (hn : arena.node? id = some node) :
    (arena.descendants id).Nodup := by
  refine hl.byOccupants (motive := fun id => (arena.descendants id).Nodup)
    (by simp [descendants_absent]) ?_ ⟨node, hn⟩
  intro id node hn ih
  have hchild {c : NodeId} (hc : c ∈ node.kind.children.map Prod.snd) :
      c ∈ node.kind.occupants ∧ arena.parent? c = some id ∧ ∃ cnode, arena.node? c =
          some cnode := by
    have hp := hl.parent?_of_mem_children hn hc
    obtain ⟨cnode, hcn, -⟩ := parent?_eq_some.1 hp
    exact ⟨hl.mem_occupants_of_parent? hp hn, hp, cnode, hcn⟩
  rw [hl.descendants_eq_children hn, List.nodup_cons, List.nodup_flatMap]
  refine ⟨fun hmem => ?_, fun c hc => ih c (hchild hc).1, ?_⟩
  · obtain ⟨c, hc, hmem⟩ := List.mem_flatMap.1 hmem
    obtain ⟨-, hp, cnode, hcn⟩ := hchild hc
    exact hl.not_under_parent hp ((hl.mem_descendants_iff hcn).1 hmem)
  · refine (hl.children_nodup hn).imp_of_mem fun {c d} hc hd hne y hy hy' => ?_
    obtain ⟨-, hcp, cnode, hcn⟩ := hchild hc
    obtain ⟨-, hdp, dnode, hdn⟩ := hchild hd
    exact hl.not_under_of_siblings hcp hdp hne ((hl.mem_descendants_iff hcn).1 hy)
      ((hl.mem_descendants_iff hdn).1 hy')

/-- No node of a subtree is visited twice. -/
theorem postorder_nodup (hl : arena.Linked) (hn : arena.node? id = some node) :
    (arena.postorder id).Nodup :=
  (arena.postorder_perm id).nodup_iff.2 (hl.descendants_nodup hn)

/-- The nodes under a node are no more than there are nodes. -/
theorem length_postorder_le (hl : arena.Linked) (hn : arena.node? id = some node) :
    (arena.postorder id).length ≤ arena.size :=
  length_le_size (hl.postorder_nodup hn) fun _ hx =>
    ((hl.mem_postorder_iff hn).1 hx).exists_node? hn

end Linked

end JavaFold.Arena
