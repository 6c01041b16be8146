import JavaFold.Arena.Edit
import JavaFold.Proofs.Node.Listing
import Mathlib.Data.Fintype.Card

/-!
# Links in both directions

A link is recorded twice: in the kind of the parent and in the parent and the location of the child.
`Linked` says that the two records agree, that following parents always ends, and that the root has
no parent. The statements about following parents are made through `Depth`, the number of steps from
a node to the parentless node above it; a depth is below the number of nodes, since the nodes on the
way up are all different.
-/

namespace JavaFold

namespace Arena

variable {arena : Arena} {id x y : NodeId}

/-! ## Looking nodes up -/

@[simp] theorem node?_absent (arena : Arena) : arena.node? .absent = none := rfl

/-- A node is found under a handle that means something and has an index in use. -/
theorem node?_eq_some {node : Node} :
    arena.node? id = some node ↔ id.isPresent = true ∧ arena.nodes[id.index]? = some node := by
  rw [node?, Option.ite_none_right_eq_some]

/-- What is found is found under a handle that means something. -/
theorem isPresent_of_node? {node : Node} (h : arena.node? id = some node) :
    id.isPresent = true :=
  (node?_eq_some.1 h).1

/-- What is found is found below the size of the arena. -/
theorem index_lt_of_node? {node : Node} (h : arena.node? id = some node) :
    id.index < arena.size :=
  (List.getElem?_eq_some_iff.1 (by simpa using (node?_eq_some.1 h).2)).1

/-- Handles of nodes are no more than there are nodes, unless one of them comes up twice. -/
theorem length_le_size {ids : List NodeId} (hnodup : ids.Nodup)
    (h : ∀ x ∈ ids, ∃ node, arena.node? x = some node) : ids.length ≤ arena.size := by
  have hinj : Function.Injective NodeId.index := fun _ _ => congrArg NodeId.mk
  have hsub : ids.map NodeId.index ⊆ List.range arena.size := by
    intro i hi
    obtain ⟨x, hx, rfl⟩ := List.mem_map.1 hi
    obtain ⟨node, hn⟩ := h x hx
    exact List.mem_range.2 (index_lt_of_node? hn)
  simpa using ((hnodup.map hinj).subperm hsub).length_le

/-- An arena contains the handles under which it finds a node. -/
theorem contains_iff : arena.contains id = true ↔ ∃ node, arena.node? id = some node := by
  simp only [contains, Bool.and_eq_true, decide_eq_true_eq, node?_eq_some]
  constructor
  · rintro ⟨hp, hlt⟩
    exact ⟨arena.nodes[id.index], hp, Array.getElem?_eq_getElem hlt⟩
  · rintro ⟨node, hp, hn⟩
    exact ⟨hp, index_lt_of_node? (node?_eq_some.2 ⟨hp, hn⟩)⟩

/-- The parent of a node is the handle it records, unless that one means nothing. -/
theorem parent?_eq_some :
    arena.parent? id = some x ↔
      ∃ node, arena.node? id = some node ∧ node.parent = x ∧ x.isPresent = true := by
  simp only [parent?, Option.bind_eq_some_iff, NodeId.present?, Option.ite_none_right_eq_some,
    Option.some.injEq]
  constructor
  · rintro ⟨node, hn, hp, rfl⟩
    exact ⟨node, hn, rfl, hp⟩
  · rintro ⟨node, hn, rfl, hp⟩
    exact ⟨node, hn, hp, rfl⟩

/-- A node has no parent if and only if it records a handle that means nothing. -/
theorem parent?_eq_none_of_node? {node : Node} (h : arena.node? id = some node) :
    arena.parent? id = none ↔ node.parent.isPresent = false := by
  simp [parent?, h, NodeId.present?]

/-- A node that is asked for is the one found, or the request is refused. -/
theorem require_eq_ok {node : Node} : arena.require id = .ok node ↔ arena.node? id = some node := by
  rw [require]
  cases arena.node? id <;> simp

@[simp] theorem size_modifyNode (arena : Arena) (id : NodeId) (change : Node → Node) :
    (arena.modifyNode id change).size = arena.size := by
  simp [modifyNode, size]

@[simp] theorem root_modifyNode (arena : Arena) (id : NodeId) (change : Node → Node) :
    (arena.modifyNode id change).root = arena.root := rfl

@[simp] theorem names_modifyNode (arena : Arena) (id : NodeId) (change : Node → Node) :
    (arena.modifyNode id change).names = arena.names := rfl

/-- A change of one node changes what is found under its handle and nothing else. -/
theorem node?_modifyNode (arena : Arena) (id : NodeId) (change : Node → Node) (x : NodeId) :
    (arena.modifyNode id change).node? x =
      if x = id then (arena.node? x).map change else arena.node? x := by
  by_cases hp : x.isPresent = true
  · simp only [node?, hp, if_true, modifyNode, Array.getElem?_modify]
    by_cases hx : x = id
    · simp [hx]
    · have hne : id.index ≠ x.index := fun he => hx (by cases x; cases id; simp_all)
      simp [hx, hne]
  · simp [node?, hp]

/-! ## Following parents -/

/-- Following parents from a node ends at a parentless node after the given number of steps. -/
inductive Depth (arena : Arena) : NodeId → Nat → Prop where
  /-- A parentless node is reached. -/
  | top {id : NodeId} (h : arena.parent? id = none) : Depth arena id 0
  /-- One step up. -/
  | up {id parent : NodeId} {steps : Nat} (h : arena.parent? id = some parent)
    (hd : Depth arena parent steps) : Depth arena id (steps + 1)

/-- There is one way up, so the number of steps is determined. -/
theorem Depth.unique {m n : Nat} (hm : arena.Depth id m) (hn : arena.Depth id n) : m = n := by
  induction hm generalizing n with
  | top h =>
    cases hn with
    | top => rfl
    | up h' => simp [h] at h'
  | up h _ ih =>
    cases hn with
    | top h' => simp [h] at h'
    | up h' hd' =>
      rw [Option.some.inj (h.symm.trans h')] at ih
      rw [ih hd']

/-- The second node is the first one or lies below it. -/
inductive Under (arena : Arena) (top : NodeId) : NodeId → Prop where
  /-- A node lies under itself. -/
  | self : Under arena top top
  /-- A child of a node under `top` lies under `top`. -/
  | step {id parent : NodeId} (h : arena.parent? id = some parent)
    (hu : Under arena top parent) : Under arena top id

private theorem Under.depth_le {m n : Nat} (hu : arena.Under x y) (hx : arena.Depth x m)
    (hy : arena.Depth y n) : m ≤ n := by
  induction hu generalizing n with
  | self => exact (hx.unique hy).le
  | step h _ ih =>
    cases hy with
    | top h' => simp [h] at h'
    | up h' hd' =>
      rw [Option.some.inj (h.symm.trans h')] at ih
      have := ih hd'
      omega

/-- No node lies under one of its own children. -/
theorem Depth.not_under_parent {n : Nat} (hd : arena.Depth id n)
    (hp : arena.parent? id = some x) : ¬ arena.Under id x := by
  intro hu
  cases hd with
  | top h => simp [h] at hp
  | up h hd' =>
    rw [Option.some.inj (h.symm.trans hp)] at hd'
    have := hu.depth_le (.up hp hd') hd'
    omega

/-- What lies under a node lies under every node above it. -/
theorem Under.trans (hxy : arena.Under x y) (hyz : arena.Under y id) : arena.Under x id := by
  induction hyz with
  | self => exact hxy
  | step h _ ih => exact .step h ih

/-- What lies under a node is a node. -/
theorem Under.exists_node? {node : Node} (hu : arena.Under x id) (hn : arena.node? x = some node) :
    ∃ node', arena.node? id = some node' := by
  cases hu with
  | self => exact ⟨node, hn⟩
  | step hp _ =>
    obtain ⟨node', hn', -⟩ := parent?_eq_some.1 hp
    exact ⟨node', hn'⟩

/-- Of two nodes above a third one, one lies under the other. -/
theorem Under.total (hx : arena.Under x id) (hy : arena.Under y id) :
    arena.Under x y ∨ arena.Under y x := by
  induction hx with
  | self => exact .inr hy
  | step h hu ih =>
    cases hy with
    | self => exact .inl (.step h hu)
    | step h' hu' =>
      rw [Option.some.inj (h'.symm.trans h)] at hu'
      exact ih hu'

/-- If every changed parent has a depth of its own, nodes keep having a depth. -/
theorem Depth.transfer {arena' : Arena} {n : Nat} (hd : arena.Depth id n)
    (h : ∀ x p, arena'.parent? x = some p →
      arena.parent? x = some p ∨ ∃ m, arena'.Depth p m) : ∃ m, arena'.Depth id m := by
  induction hd with
  | @top id ht =>
    cases hp : arena'.parent? id with
    | none => exact ⟨0, .top hp⟩
    | some p =>
      rcases h id p hp with ho | ⟨m, hm⟩
      · simp [ht] at ho
      · exact ⟨m + 1, .up hp hm⟩
  | @up id parent n hu _ ih =>
    cases hp : arena'.parent? id with
    | none => exact ⟨0, .top hp⟩
    | some p =>
      rcases h id p hp with ho | ⟨m, hm⟩
      · rw [Option.some.inj (hu.symm.trans ho)] at ih
        obtain ⟨m, hm⟩ := ih
        exact ⟨m + 1, .up hp hm⟩
      · exact ⟨m + 1, .up hp hm⟩

/-- A depth only looks at the nodes on the way up. -/
theorem Depth.congr {arena' : Arena} {n : Nat} (hd : arena.Depth id n)
    (h : ∀ x, arena.Under x id → arena'.parent? x = arena.parent? x) : arena'.Depth id n := by
  induction hd with
  | top ht => exact .top (by rw [h _ .self, ht])
  | up hu _ ih =>
    refine .up (by rw [h _ .self, hu]) (ih fun x hx => h x (.step hu hx))

/-- Whether a node lies under another depends on parents only. -/
theorem Under.congr {arena' : Arena} (hu : arena.Under x y)
    (h : ∀ z, arena'.parent? z = arena.parent? z) : arena'.Under x y := by
  induction hu with
  | self => exact .self
  | step hp _ ih => exact .step ((h _).trans hp) ih

/-- What lies above a node only depends on the parents of the nodes above it. -/
theorem Under.congr_above {arena' : Arena} (hu : arena'.Under x y)
    (h : ∀ z, arena.Under z y → arena'.parent? z = arena.parent? z) : arena.Under x y := by
  induction hu with
  | self => exact .self
  | step hp _ ih =>
    have hp' := (h _ .self).symm.trans hp
    exact .step hp' (ih fun z hz => h z (.step hp' hz))

/-- A walk upwards that is long enough passes exactly the nodes above. -/
theorem mem_ancestryUpTo {n steps : Nat} (hd : arena.Depth id n) (hs : n ≤ steps) :
    x ∈ arena.ancestryUpTo steps id ↔ arena.Under x id := by
  induction steps generalizing id n with
  | zero =>
    cases hd with
    | top ht =>
      rw [ancestryUpTo, List.mem_singleton]
      constructor
      · rintro rfl
        exact .self
      · intro hu
        cases hu with
        | self => rfl
        | step h _ => simp [ht] at h
    | up => omega
  | succ steps ih =>
    rw [ancestryUpTo]
    cases hd with
    | top ht =>
      simp only [ht, List.mem_singleton]
      constructor
      · rintro rfl
        exact .self
      · intro hu
        cases hu with
        | self => rfl
        | step h _ => simp [ht] at h
    | up hu hd' =>
      simp only [hu, List.mem_cons, ih hd' (by omega)]
      constructor
      · rintro (rfl | hx)
        · exact .self
        · exact .step hu hx
      · intro hx
        cases hx with
        | self => exact .inl rfl
        | step h hx =>
          rw [Option.some.inj (h.symm.trans hu)] at hx
          exact .inr hx

/-! ## The invariant -/

/-- The two records of every link agree, following parents ends, and the root has no parent. -/
structure Linked (arena : Arena) : Prop where
  /-- Every node has a handle of its own. -/
  small : arena.size ≤ NodeId.maxIndex
  /-- A child knows its parent and its location. -/
  down : ∀ {p node location c}, arena.node? p = some node → (location, c) ∈ node.kind.children →
    ∃ child, arena.node? c = some child ∧ child.parent = p ∧ child.location = some location
  /-- A parent holds its child at the child's location. -/
  up : ∀ {c child}, arena.node? c = some child → child.parent.isPresent = true →
    ∃ location node, child.location = some location ∧ arena.node? child.parent = some node ∧
      node.kind.get? location = some c
  /-- A parentless node has no location. -/
  lone : ∀ {c child}, arena.node? c = some child → child.parent.isPresent = false →
    child.location = none
  /-- Following parents ends. -/
  grounded : ∀ {c child}, arena.node? c = some child → ∃ steps, arena.Depth c steps
  /-- The root is a parentless node, if there is one. -/
  rooted : arena.root = .absent ∨
    ∃ node, arena.node? arena.root = some node ∧ node.parent.isPresent = false

/-- There is nothing to disagree about in an empty arena. -/
theorem linked_empty : Arena.empty.Linked where
  small := by decide
  down h := by simp [node?, empty] at h
  up h := by simp [node?, empty] at h
  lone h := by simp [node?, empty] at h
  grounded h := by simp [node?, empty] at h
  rooted := .inl rfl

namespace Linked

/-- A parent is a node of the arena. -/
theorem parent_contained (hl : arena.Linked) (h : arena.parent? x = some y) :
    ∃ node, arena.node? y = some node := by
  obtain ⟨node, hn, rfl, hp⟩ := parent?_eq_some.1 h
  obtain ⟨_, parent, -, hparent, -⟩ := hl.up hn hp
  exact ⟨parent, hparent⟩

/-- On the way up from a node there is a node of every smaller depth. -/
theorem exists_depth (hl : arena.Linked) {n : Nat} (hd : arena.Depth x n) {node : Node}
    (hn : arena.node? x = some node) {k : Nat} (hk : k ≤ n) :
    ∃ z, arena.contains z = true ∧ arena.Depth z k := by
  induction hd generalizing node with
  | top h =>
    obtain rfl : k = 0 := by omega
    exact ⟨_, contains_iff.2 ⟨node, hn⟩, .top h⟩
  | @up id parent steps h hd' ih =>
    rcases Nat.lt_or_ge k (steps + 1) with hlt | hge
    · obtain ⟨pnode, hpn⟩ := hl.parent_contained h
      exact ih hpn (by omega)
    · obtain rfl : k = steps + 1 := by omega
      exact ⟨id, contains_iff.2 ⟨node, hn⟩, .up h hd'⟩

/-- A depth is below the number of nodes: the nodes on the way up differ in depth. -/
theorem depth_lt_size (hl : arena.Linked) {n : Nat} (hd : arena.Depth x n) {node : Node}
    (hn : arena.node? x = some node) : n < arena.size := by
  choose above hc hdepth using fun k : Fin (n + 1) =>
    hl.exists_depth hd hn (k := k.val) (by omega)
  have hlt (k : Fin (n + 1)) : (above k).index < arena.size := by
    obtain ⟨_, hk⟩ := contains_iff.1 (hc k)
    exact index_lt_of_node? hk
  have hinj : Function.Injective fun k => (⟨(above k).index, hlt k⟩ : Fin arena.size) := by
    intro j k he
    have habove : above j = above k := by
      cases hj : above j
      cases hk : above k
      simpa [hj, hk] using he
    have hdj := hdepth j
    rw [habove] at hdj
    exact Fin.ext (hdj.unique (hdepth k))
  have := Fintype.card_le_of_injective _ hinj
  simp only [Fintype.card_fin] at this
  omega

/-- The search upwards, which the size of the arena bounds, finds what lies above. -/
theorem isAncestorOrSelf_iff (hl : arena.Linked) {node : Node} (hn : arena.node? x = some node) :
    arena.isAncestorOrSelf y x = true ↔ arena.Under y x := by
  obtain ⟨n, hd⟩ := hl.grounded hn
  rw [isAncestorOrSelf, List.contains_iff_mem, ancestry,
    mem_ancestryUpTo hd (hl.depth_lt_size hd hn).le]

/-- The children of a node are different nodes at different locations. -/
theorem location_unique (hl : arena.Linked) {p q : NodeId} {m n : Node} {l k : Location}
    {c : NodeId} (hm : arena.node? p = some m) (hn : arena.node? q = some n)
    (hc : c.isPresent = true) (hl' : m.kind.get? l = some c) (hk : n.kind.get? k = some c) :
    p = q ∧ l = k := by
  obtain ⟨child, hchild, rfl, hloc⟩ := hl.down hm (NodeKind.mem_children_of_get? hl' hc)
  obtain ⟨child', hchild', rfl, hloc'⟩ := hl.down hn (NodeKind.mem_children_of_get? hk hc)
  rw [Option.some.inj (hchild.symm.trans hchild')] at hloc ⊢
  exact ⟨rfl, Option.some.inj (hloc.symm.trans hloc')⟩

end Linked

end Arena

end JavaFold
