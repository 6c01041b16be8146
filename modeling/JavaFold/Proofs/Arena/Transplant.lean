import JavaFold.Proofs.Arena.Copy
import JavaFold.Proofs.Arena.Matching

/-!
# Where a copy lies

Copying allocates one node for each node under the one that is copied, children first. So the new
nodes lie at the end of the arena in post-order, and every handle in them can be told beforehand:
the copy of a node has its number in the post-order, counted from the first new node (`Numbers`).
Under this numbering a copied node is the node it was copied from (`Transplanted`), except that the
copy as a whole hangs nowhere.
-/

namespace JavaFold

open Arena Edit

/-- The node with its handles exchanged for others. -/
def Node.moved (move : NodeId → NodeId) (node : Node) : Node :=
  { node with kind := node.kind.map id move, parent := move node.parent }

/-- The node without a parent. -/
def Node.unlinked (node : Node) : Node :=
  { node with parent := .absent, location := none }

private theorem Tree.postorder_mapInfo {ι κ : Type} (f : ι → κ) (tree : Tree ι) :
    (tree.mapInfo f).postorder = tree.postorder.map f := by
  induction tree using byOccupants with
  | absent => rfl
  | node info kind ih =>
    rw [mapInfo_node, postorder_node, postorder_node, NodeKind.occupants_map, List.map_append,
      List.flatMap_map, List.map_flatMap]
    exact congrArg (·.flatten ++ [f info]) (List.map_congr_left ih)

namespace Arena

variable {base arena middle arena' : Arena} {move : NodeId → NodeId} {top x : NodeId} {node : Node}

/-! ## Numbers -/

/-- The nodes of a list get consecutive handles. -/
def Numbers (move : NodeId → NodeId) (start : Nat) (ids : List NodeId) : Prop :=
  ids.map move = (List.range' start ids.length).map NodeId.mk

section Numbers

variable {start : Nat} {ids : List NodeId}

private theorem numbers_append {xs ys : List NodeId} : Numbers move start (xs ++ ys) ↔
    Numbers move start xs ∧ Numbers move (start + xs.length) ys := by
  have hrange : List.range' start (xs ++ ys).length =
      List.range' start xs.length ++ List.range' (start + xs.length) ys.length := by
    rw [List.length_append, List.range'_append_1]
  rw [Numbers, Numbers, Numbers, hrange, List.map_append, List.map_append]
  exact ⟨fun h => List.append_inj h (by simp), fun h => by rw [h.1, h.2]⟩

private theorem numbers_singleton : Numbers move start [x] ↔ move x = ⟨start⟩ := by
  simp [Numbers]

namespace Numbers

/-- Different nodes have different numbers, so their copies are different. -/
theorem injective (h : Numbers move start ids) {y : NodeId} (hx : x ∈ ids) (hy : y ∈ ids)
    (he : move x = move y) : x = y := by
  have hnodup : (ids.map move).Nodup := by
    rw [h]
    exact List.Nodup.map (fun i j => NodeId.mk.inj) List.nodup_range'
  exact List.inj_on_of_nodup_map hnodup hx hy he

private theorem bounds (h : Numbers move start ids) (hx : x ∈ ids) :
    start ≤ (move x).index ∧ (move x).index < start + ids.length := by
  have hm := List.mem_map_of_mem (f := move) hx
  rw [h] at hm
  obtain ⟨i, hi, he⟩ := List.mem_map.1 hm
  rw [← he]
  exact List.mem_range'_1.1 hi

/-- A node is numbered after all the nodes under it. -/
theorem move_top (h : Numbers move start (base.postorder top)) (hb : base.Linked)
    (hn : base.node? top = some node) :
    move top = ⟨start + (node.kind.occupants.flatMap base.postorder).length⟩ := by
  rw [hb.postorder_eq_occupants hn, numbers_append, numbers_singleton] at h
  exact h.2

end Numbers

/-- Different nodes can be numbered. -/
theorem exists_numbers_of_nodup (start : Nat) (hn : ids.Nodup) (ha : .absent ∉ ids) :
    ∃ move, Numbers move start ids ∧ move .absent = .absent := by
  refine ⟨fun x => if x ∈ ids then ⟨start + ids.idxOf x⟩ else .absent, ?_, if_neg ha⟩
  refine List.ext_getElem (by simp) fun i hi hi' => ?_
  rw [List.length_map] at hi
  simp only [List.getElem_map, List.getElem_mem, if_true, hn.idxOf_getElem, List.getElem_range',
    Nat.one_mul]

end Numbers

/-! ## Copied nodes -/

/-- What a copy of a node remembers of its arena. -/
def Stamp.moved (move : NodeId → NodeId) (stamp : Stamp) : Stamp :=
  { stamp with id := move stamp.id }

/-- The nodes under some nodes are there a second time at the end of the arena, each under the
handle that it is moved to. -/
structure Transplanted (base arena arena' : Arena) (move : NodeId → NodeId) (tops : List NodeId) :
    Prop where
  /-- The nodes that were there before are still there. -/
  grown : arena.Extends arena'
  /-- There is one new node for each node that was copied. -/
  size : arena'.size = arena.size + (tops.flatMap base.postorder).length
  /-- The topmost nodes have no parent. -/
  top : ∀ {c node}, c ∈ tops → base.node? c = some node →
    arena'.node? (move c) = some (node.moved move).unlinked
  /-- The nodes further down are linked to one another as those that were copied. -/
  below : ∀ {c x node}, c ∈ tops → x ∈ base.postorder c → x ≠ c → base.node? x = some node →
    arena'.node? (move x) = some (node.moved move)

namespace Transplanted

/-- A walk through no nodes moves nothing. -/
theorem nil (hl : arena.Linked) : Transplanted base arena arena move [] where
  grown := .refl hl
  size := rfl
  top h := by cases h
  below h := by cases h

/-- One child moved and then the others are all of them moved. -/
theorem cons {cs : List NodeId} {c : NodeId} (h : Transplanted base arena middle move [c])
    (h' : Transplanted base middle arena' move cs) :
    Transplanted base arena arena' move (c :: cs) where
  grown := h.grown.trans h'.grown
  size := by
    rw [h'.size, h.size, List.flatMap_singleton, List.flatMap_cons, List.length_append,
      Nat.add_assoc]
  top hd hn := by
    rcases List.mem_cons.1 hd with rfl | hd
    · exact h'.grown.kept (h.top List.mem_cons_self hn)
    · exact h'.top hd hn
  below hd hx hne hn := by
    rcases List.mem_cons.1 hd with rfl | hd
    · exact h'.grown.kept (h.below List.mem_cons_self hx hne hn)
    · exact h'.below hd hx hne hn

/-- The tree under a copy is the one that was copied, with other handles. -/
theorem tree_eq {tops : List NodeId} {c : NodeId} {cnode : Node}
    (h : Transplanted base arena arena' move tops) (hb : base.Linked) (he : base.Extends arena)
    (ha : move .absent = .absent) (hc : c ∈ tops) (hn : base.node? c = some cnode) :
    arena'.tree (move c) = (base.tree c).mapInfo (Stamp.moved move) := by
  have hl := h.grown.linked
  have hnames : arena'.names = base.names := h.grown.names.trans he.names
  have hnode {x : NodeId} {node : Node} (hx : base.Under c x) (hxn : base.node? x = some node) :
      ∃ node', arena'.node? (move x) = some node' ∧ node'.kind = node.kind.map id move ∧
        node'.span = node.span := by
    by_cases hxc : x = c
    · subst hxc
      exact ⟨_, h.top hc hxn, rfl, rfl⟩
    · exact ⟨_, h.below hc ((hb.mem_postorder_iff hn).2 hx) hxc hxn, rfl, rfl⟩
  refine hb.byOccupants (motive := fun x => x = .absent ∨ base.Under c x →
    arena'.tree (move x) = (base.tree x).mapInfo (Stamp.moved move)) ?_ ?_ ⟨cnode, hn⟩ (.inr .self)
  · intro _
    rw [ha, tree_absent, tree_absent, Tree.mapInfo_absent]
  · intro x node hxn ih hx
    have hux : base.Under c x := hx.resolve_left (NodeId.isPresent_iff.1 (isPresent_of_node? hxn))
    obtain ⟨node', hn', hkind, hspan⟩ := hnode hux hxn
    rw [hl.tree_eq hn', hb.tree_eq hxn, Tree.mapInfo_node, hkind, hspan, hnames, NodeKind.map_map,
      NodeKind.map_map]
    refine congrArg _ (NodeKind.map_congr fun d hd => ih d hd ?_)
    by_cases hda : d = .absent
    · exact .inl hda
    · exact .inr (hux.trans (hb.under_occupant hxn hd hda))

/-- The next node to be allocated is the one that the top is moved to. -/
theorem move_top (h : Transplanted base arena middle move node.kind.occupants) (hb : base.Linked)
    (hn : base.node? top = some node) (hm : Numbers move arena.size (base.postorder top)) :
    move top = ⟨middle.size⟩ := by
  rw [hm.move_top hb hn, h.size]

section Push

variable (h : Transplanted base arena middle move node.kind.occupants) (hb : base.Linked)
  (hn : base.node? top = some node) (ha : move .absent = .absent) (he : base.Extends arena)
  (hm : Numbers move arena.size (base.postorder top))
include h hb hn ha he hm

private theorem copiedAll : CopiedAll base arena middle node.kind.occupants move := by
  have hmem {c : NodeId} (hc : c ∈ node.kind.occupants) (hca : c ≠ .absent) :
      c ∈ base.postorder top :=
    (hb.mem_postorder_iff hn).2 (hb.under_occupant hn hc hca)
  refine ⟨h.grown, ha, fun c hc hca => ?_, fun c hc d hd hca hda hcd => ?_⟩
  · obtain ⟨child, hchild, -⟩ := parent?_eq_some.1 (hb.parent?_of_mem_occupants hn hc hca)
    refine ⟨(hm.bounds (hmem hc hca)).1, ⟨_, h.top hc hchild, rfl⟩, ?_⟩
    rw [spans, spans, h.tree_eq hb he ha hc hchild, Tree.mapInfo_mapInfo]
    rfl
  · exact hm.injective (hmem hc hca) (hmem hd hda) hcd

/-- The copy of a node further down is none of the children of the new node. -/
theorem not_mem_children {d : NodeId} (hd : d ∈ node.kind.occupants)
    (hx : x ∈ base.postorder d) (hne : x ≠ d) :
    move x ∉ (node.kind.map id move).children.map Prod.snd := by
  intro hmem
  obtain ⟨e, heo, hxe, hcopied⟩ :=
    (h.copiedAll hb hn ha he hm).exists_of_mem_children hb hn hmem
  have hea : e ≠ .absent := by
    rintro rfl
    exact hcopied.ne_absent (hxe.trans ha)
  have hda : d ≠ .absent := by
    rintro rfl
    simp at hx
  have hep := hb.parent?_of_mem_occupants hn heo hea
  have hdp := hb.parent?_of_mem_occupants hn hd hda
  obtain ⟨dnode, hdn, -⟩ := parent?_eq_some.1 hdp
  have hux : base.Under d x := (hb.mem_postorder_iff hdn).1 hx
  -- with the same copy, the node would be a child itself, beside the one that it lies under
  have hxe' : x = e := by
    refine hm.injective ?_ ?_ hxe
    · exact (hb.mem_postorder_iff hn).2 (.trans (.step hdp .self) hux)
    · exact (hb.mem_postorder_iff hn).2 (.step hep .self)
  rw [hxe'] at hux hne
  exact hb.not_under_of_siblings hep hdp hne .self hux

/-- The copy of a child gets the new node for a parent. -/
theorem node?_push_child_copy {xnode : Node} (hs : middle.size < NodeId.maxIndex)
    (hx : x ∈ node.kind.occupants)
    (hxn : base.node? x = some xnode) :
    (middle.push (node.kind.map id move) node.span).node? (move x) = some (xnode.moved move) := by
  have hall := h.copiedAll hb hn ha he hm
  rcases hb.occupant_cases hn hx with rfl | ⟨l, child, hl, hchild, hp, hloc⟩
  · simp at hxn
  · cases Option.some.inj (hxn.symm.trans hchild)
    have hmoved : (l, move x) ∈ (node.kind.map id move).children := by
      rw [hall.children_map]
      exact List.mem_map_of_mem hl
    rw [node?_push_child hs (hall.adoptable hb he.linked hn) hmoved, h.top hx hxn, Option.map_some]
    simp only [Node.unlinked, Node.moved, hp, hloc, h.move_top hb hn hm]

/-- A new node over the copies of the children of a node is the copy of that node. -/
theorem push (hs : middle.size < NodeId.maxIndex) :
    Transplanted base arena (middle.push (node.kind.map id move) node.span) move [top] := by
  have hall := h.copiedAll hb hn ha he hm
  have had := hall.adoptable hb he.linked hn
  have htop := h.move_top hb hn hm
  have hpost := hb.postorder_eq_occupants hn
  refine ⟨(hall.push hb he hn hs).1, ?size, ?top, ?below⟩
  case size =>
    rw [size_push, h.size, List.flatMap_singleton, hpost, List.length_append,
      List.length_singleton, Nat.add_assoc]
  case top =>
    intro c cnode hc hcn
    cases List.mem_singleton.1 hc
    cases Option.some.inj (hn.symm.trans hcn)
    rw [htop]
    exact node?_push_self hs had
  case below =>
    intro c x xnode hc hx hne hxn
    cases List.mem_singleton.1 hc
    rw [hpost, List.mem_append, List.mem_singleton, List.mem_flatMap] at hx
    obtain ⟨d, hd, hxd⟩ := hx.resolve_right hne
    by_cases hxe : x = d
    · subst hxe
      exact h.node?_push_child_copy hb hn ha he hm hs hd hxn
    · have hcopy := h.below hd hxd hxe hxn
      rw [node?_push_other hs (h.not_mem_children hb hn ha he hm hd hxd hxe) ?_, hcopy]
      intro hnew
      have hlt := index_lt_of_node? hcopy
      rw [hnew] at hlt
      exact absurd hlt (lt_irrefl _)

end Push

/-- An empty slot stays empty. -/
theorem absent (hl : arena.Linked) : Transplanted base arena arena move [.absent] where
  grown := .refl hl
  size := by simp
  top hc hn := by
    cases List.mem_singleton.1 hc
    simp at hn
  below hc hx := by
    cases List.mem_singleton.1 hc
    simp at hx

end Transplanted

end Arena

namespace Edit

variable {base arena : Arena} {move : NodeId → NodeId} {top : NodeId} {node : Node}

/-! ## Copying -/

/-- A change copies the nodes under a node to where they are numbered, if there are handles left for
them. -/
def Transplants (base : Arena) (move : NodeId → NodeId) (edit : Edit NodeId) (top : NodeId) :
    Prop :=
  ∀ arena, base.Extends arena → Numbers move arena.size (base.postorder top) →
    arena.size + (base.postorder top).length ≤ NodeId.maxIndex →
    ∃ arena', edit.run arena = .ok (move top) arena' ∧ Transplanted base arena arena' move [top]

/-- A row of nodes is copied one after the other. -/
theorem exists_yields_copy {f : NodeId → Edit NodeId} {cs : List NodeId}
    (hf : ∀ c ∈ cs, Transplants base move (f c) c) (he : base.Extends arena)
    (hm : Numbers move arena.size (cs.flatMap base.postorder))
    (hs : arena.size + (cs.flatMap base.postorder).length ≤ NodeId.maxIndex) :
    ∃ arena', Yields f move cs arena arena' ∧ Transplanted base arena arena' move cs := by
  induction cs generalizing arena with
  | nil => exact ⟨arena, yields_nil.2 rfl, .nil he.linked⟩
  | cons c cs ih =>
    rw [List.flatMap_cons, numbers_append] at hm
    rw [List.flatMap_cons, List.length_append] at hs
    obtain ⟨middle, hrun, hfirst⟩ := hf c List.mem_cons_self arena he hm.1 (by omega)
    have hsize : middle.size = arena.size + (base.postorder c).length := by
      rw [hfirst.size, List.flatMap_singleton]
    obtain ⟨last, hrest, hall⟩ := ih (fun d hd => hf d (List.mem_cons_of_mem c hd))
      (he.trans hfirst.grown) (hsize ▸ hm.2) (by omega)
    exact ⟨last, yields_cons.2 ⟨middle, hrun, hrest⟩, hfirst.cons hall⟩

/-- With enough steps left, the whole tree under a node is copied. -/
theorem transplants_copyUpTo (hb : base.Linked) (ha : move .absent = .absent) {depth n : Nat}
    (hd : base.Depth top n) (hn : base.node? top = some node) (hdepth : base.size ≤ depth + n) :
    Transplants base move (copyUpTo depth top) top := by
  have hlt := hb.depth_lt_size hd hn
  induction depth generalizing top n node with
  | zero => omega
  | succ depth ih =>
    intro arena he hm hs
    have hoccupants : ∀ c ∈ node.kind.occupants, Transplants base move (copyUpTo depth c) c := by
      intro c hc
      rcases hb.occupant_cases hn hc with rfl | ⟨_, child, -, hchild, rfl, -⟩
      · intro arena he _ _
        exact ⟨arena, by rw [run_copyUpTo_absent, ha], .absent he.linked⟩
      · have hdc : base.Depth c (n + 1) :=
          .up (parent?_eq_some.2 ⟨child, hchild, rfl, isPresent_of_node? hn⟩) hd
        exact ih hdc hchild (by omega) (hb.depth_lt_size hdc hchild)
    have hpost := hb.postorder_eq_occupants hn
    have hrow := hm
    rw [hpost, numbers_append] at hrow
    rw [hpost, List.length_append, List.length_singleton] at hs
    obtain ⟨middle, hyields, hall⟩ := exists_yields_copy hoccupants he hrow.1 (by omega)
    have hsmall : middle.size < NodeId.maxIndex := by
      rw [hall.size]
      omega
    have hadoptable := (hall.copiedAll hb hn ha he hm).adoptable hb he.linked hn
    refine ⟨_, ?_, hall.push hb hn ha he hm hsmall⟩
    rw [copyUpTo, run_read_bind, he.kept hn]
    simp only [run_bind_ok (run_traverse (yields_pure _ _) hyields), run_alloc,
      if_neg (Nat.not_lt.2 hsmall.le), (checkNew_eq_ok hsmall.le).2 hadoptable,
      hall.move_top hb hn hm]

end Edit

namespace Arena

variable {arena arena' : Arena} {move : NodeId → NodeId} {top copy x : NodeId} {node : Node}

/-! ## The copy as a whole -/

/-- The nodes under a node can be numbered from the first node that is not there yet. -/
theorem Linked.exists_numbers (hl : arena.Linked) (hn : arena.node? top = some node) :
    ∃ move, Numbers move arena.size (arena.postorder top) ∧ move .absent = .absent := by
  refine exists_numbers_of_nodup _ (hl.postorder_nodup hn) fun habsent => ?_
  obtain ⟨xnode, hxn⟩ := ((hl.mem_postorder_iff hn).1 habsent).exists_node? hn
  simp at hxn

/-- The tree under a node is there a second time, at the end of the arena and on its own. -/
structure Duplicated (arena arena' : Arena) (top copy : NodeId) (move : NodeId → NodeId) :
    Prop where
  /-- There is one new node for each node of the tree. -/
  size : arena'.size = arena.size + (arena.descendants top).length
  /-- The nodes that were there before are as they were. -/
  kept : ∀ {x node}, arena.node? x = some node → arena'.node? x = some node
  /-- The root is the same. -/
  root : arena'.root = arena.root
  /-- The texts are the same. -/
  names : arena'.names = arena.names
  /-- The copy is neither attached nor the root. -/
  detached : arena'.isDetached? copy = some true ∧ arena'.parent? copy = none ∧
    arena'.location? copy = none
  /-- The nodes under the copy are the new ones. -/
  members : ∀ {x}, x ∈ arena'.descendants copy ↔ arena.size ≤ x.index ∧ x.index < arena'.size
  /-- The new nodes lie in post-order. -/
  order : arena'.postorder copy =
    (List.range' arena.size (arena.descendants top).length).map NodeId.mk
  /-- In post-order, a node comes after the nodes under its children, one child after the other. -/
  turns : ∀ {x}, x ∈ arena'.descendants copy → ∃ children, arena'.children? x = some children ∧
    arena'.postorder x = (children.map Prod.snd).flatMap arena'.postorder ++ [x]
  /-- The trees match. -/
  agrees : arena'.subtreesMatch top arena' copy = true
  /-- The nodes of the two trees correspond in post-order. -/
  paired : arena'.postorder copy = (arena.postorder top).map move
  /-- Corresponding nodes have the same source range, hold corresponding nodes, and sit at the same
  location of corresponding parents. -/
  corresponds : ∀ {x node}, x ∈ arena.descendants top → arena.node? x = some node →
    ∃ node', arena'.node? (move x) = some node' ∧ node'.span = node.span ∧
      node'.kind = node.kind.map id move ∧
      (x ≠ top → node'.parent = move node.parent ∧ node'.location = node.location)

section Whole

variable (h : Transplanted arena arena arena' move [top]) (hl : arena.Linked)
  (hn : arena.node? top = some node)

include h hl hn

private theorem Transplanted.postorder_top (ha : move .absent = .absent) :
    arena'.postorder (move top) = (arena.postorder top).map move := by
  rw [postorder, postorder, h.tree_eq hl (.refl hl) ha List.mem_cons_self hn,
    Tree.postorder_mapInfo, List.map_map, List.map_map]
  rfl

private theorem Transplanted.isDetached?_top
    (hm : Numbers move arena.size (arena.postorder top)) :
    arena'.isDetached? (move top) = some true := by
  have hcopy := h.top List.mem_cons_self hn
  have hne : move top ≠ arena'.root := by
    rw [h.grown.root]
    intro hroot
    have hold := hl.index_root_lt hroot (NodeId.isPresent_iff.1 (isPresent_of_node? hcopy))
    have hnew := (hm.bounds ((hl.mem_postorder_iff hn).2 .self)).1
    omega
  rw [isDetached?, if_neg hne, hcopy]
  rfl

private theorem Transplanted.subtreesMatch_top (ha : move .absent = .absent) :
    arena'.subtreesMatch top arena' (move top) = true := by
  have hspans : (arena'.tree top).mapInfo Stamp.span =
      (arena'.tree (move top)).mapInfo Stamp.span := by
    rw [h.tree_eq hl (.refl hl) ha List.mem_cons_self hn, Tree.mapInfo_mapInfo,
      hl.tree_congr h.grown.linked h.grown.names hn fun x xnode hxn _ =>
        ⟨xnode, h.grown.kept hxn, rfl, rfl⟩]
    rfl
  rw [subtreesMatch, Option.isNone_iff_eq_none]
  exact mismatch?_eq_none (contains_iff.2 ⟨node, h.grown.kept hn⟩)
    (contains_iff.2 ⟨_, h.top List.mem_cons_self hn⟩) hspans

/-- A subtree moved as a whole is duplicated: the new nodes are numbered in postorder and match the
old ones, which stay as they are. -/
private theorem Transplanted.duplicated (ha : move .absent = .absent)
    (hm : Numbers move arena.size (arena.postorder top)) :
    Duplicated arena arena' top (move top) move := by
  have hl' := h.grown.linked
  have hcopy := h.top List.mem_cons_self hn
  have hlength := length_postorder arena top
  have hpaired := h.postorder_top hl hn ha
  have hsize : arena'.size = arena.size + (arena.descendants top).length := by
    rw [h.size, List.flatMap_singleton, hlength]
  have horder : arena'.postorder (move top) =
      (List.range' arena.size (arena.descendants top).length).map NodeId.mk := by
    rw [hpaired, hm, hlength]
  have hmembers {x : NodeId} : x ∈ arena'.descendants (move top) ↔
      arena.size ≤ x.index ∧ x.index < arena'.size := by
    rw [← (postorder_perm arena' (move top)).mem_iff, horder, hsize, ← List.mem_range'_1]
    exact List.mem_map_of_injective (f := NodeId.mk) (fun i j => NodeId.mk.inj) (a := x.index)
  refine {
    size := hsize
    kept := h.grown.kept
    root := h.grown.root
    names := h.grown.names
    detached := ⟨h.isDetached?_top hl hn hm, (parent?_eq_none_of_node? hcopy).2 rfl, ?unplaced⟩
    members := hmembers
    order := horder
    turns := ?turns
    agrees := h.subtreesMatch_top hl hn ha
    paired := hpaired
    corresponds := ?corresponds }
  case unplaced => rw [location?, hcopy, Option.bind_some, Node.unlinked]
  case turns =>
    intro x hx
    obtain ⟨xnode, hxn⟩ := ((hl'.mem_descendants_iff hcopy).1 hx).exists_node? hcopy
    exact ⟨_, by rw [children?, hxn, Option.map_some], hl'.postorder_eq hxn⟩
  case corresponds =>
    intro x xnode hx hxn
    by_cases hxt : x = top
    · subst hxt
      exact ⟨_, h.top List.mem_cons_self hxn, rfl, rfl, fun hne => absurd rfl hne⟩
    · have hxp : x ∈ arena.postorder top := (postorder_perm arena top).mem_iff.2 hx
      exact ⟨_, h.below List.mem_cons_self hxp hxt hxn, rfl, rfl, fun _ => ⟨rfl, rfl⟩⟩

end Whole

/-- In every arena that operations lead to, copying a node succeeds as long as there are handles for
the nodes under it. The copy consists of new nodes in post-order and leaves all others alone. -/
theorem reachable_copySubtree (h : arena.Reachable) (hc : arena.contains top = true)
    (hs : arena.size + (arena.descendants top).length ≤ NodeId.maxIndex) :
    ∃ arena' move,
      (Edit.copySubtree top).run arena =
        .ok ⟨arena.size + (arena.descendants top).length - 1⟩ arena' ∧
      Duplicated arena arena' top ⟨arena.size + (arena.descendants top).length - 1⟩ move := by
  have hl : arena.Linked := h.linkedIfSmall (by omega)
  obtain ⟨node, hn⟩ := contains_iff.1 hc
  obtain ⟨n, hd⟩ := hl.grounded hn
  obtain ⟨move, hm, ha⟩ := hl.exists_numbers hn
  have hlength := length_postorder arena top
  obtain ⟨arena', hrun, hcopied⟩ :=
    Edit.transplants_copyUpTo hl ha hd hn (Nat.le_add_right _ _) arena (.refl hl) hm (by omega)
  have hlast : move top = ⟨arena.size + (arena.descendants top).length - 1⟩ := by
    rw [hm.move_top hl hn, ← hlength, hl.postorder_eq_occupants hn, List.length_append,
      List.length_singleton, ← Nat.add_assoc, Nat.add_sub_cancel]
  refine ⟨arena', move, ?_, ?_⟩
  · rw [Edit.copySubtree, run_read_bind, run_ofExcept_bind, require_eq_ok.2 hn]
    simp only [run_read_bind, hrun, hlast]
  · rw [← hlast]
    exact hcopied.duplicated hl hn ha hm

/-- A node whose child was replaced by a later node is copied after its child. -/
theorem reachable_copySubtree_replaced :
    ∃ arena arena', arena = [Operation.alloc .nullLiteral ⟨1, 5⟩,
        .alloc (.parenthesizedExpression ⟨0⟩) ⟨0, 6⟩, .alloc .nullLiteral ⟨8, 12⟩,
        .replaceChild ⟨0⟩ ⟨2⟩].foldl Operation.perform .empty ∧
      (Edit.copySubtree ⟨1⟩).run arena = .ok ⟨4⟩ arena' ∧
      arena'.postorder ⟨4⟩ = [⟨3⟩, ⟨4⟩] ∧ arena'.subtreesMatch ⟨1⟩ arena' ⟨4⟩ = true := by
  obtain ⟨arena, ha⟩ : ∃ arena, arena = [Operation.alloc .nullLiteral ⟨1, 5⟩,
    .alloc (.parenthesizedExpression ⟨0⟩) ⟨0, 6⟩, .alloc .nullLiteral ⟨8, 12⟩,
    .replaceChild ⟨0⟩ ⟨2⟩].foldl Operation.perform .empty := ⟨_, rfl⟩
  have hreachable : arena.Reachable := ha ▸ Reachable.empty.performAll _
  have hcounts : arena.contains ⟨1⟩ = true ∧ arena.size = 3 ∧
      (arena.descendants ⟨1⟩).length = 2 := by
    rw [ha]
    decide +kernel
  obtain ⟨hcontains, hsize, hlength⟩ := hcounts
  obtain ⟨arena', move, hrun, hcopied⟩ := reachable_copySubtree hreachable hcontains
    (by rw [hsize, hlength]; decide)
  rw [hsize, hlength] at hrun hcopied
  refine ⟨arena, arena', ha, hrun, ?_, hcopied.agrees⟩
  rw [hcopied.order, hsize, hlength]
  rfl

end Arena

end JavaFold
