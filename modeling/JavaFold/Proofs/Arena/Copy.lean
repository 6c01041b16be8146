import JavaFold.Proofs.Arena.Reachable

/-!
# Copies

Copying the nodes under a node adds nodes and leaves those that were there alone. The copy is
parentless, and its tree is the one that was copied, up to the handles of the nodes.
-/

namespace JavaFold

open Arena Edit

namespace Arena

variable {arena arena' base : Arena} {id x : NodeId} {node : Node} {kind : ArenaKind} {span : Span}

/-- The tree under a node without the handles. -/
def spans (arena : Arena) (id : NodeId) : Tree Span :=
  (arena.tree id).mapInfo Stamp.span

/-- A subtree has one node for each node of its tree. -/
theorem length_postorder_eq_spans (arena : Arena) (id : NodeId) :
    (arena.postorder id).length = (arena.spans id).preorder.length := by
  rw [length_postorder, descendants, spans, Tree.preorder_mapInfo, List.length_map, List.length_map]

@[simp] theorem spans_absent (arena : Arena) : arena.spans .absent = .absent := by
  rw [spans, tree_absent, Tree.mapInfo_absent]

/-- The tree of a node is made of its own span and the trees of its occupants. -/
theorem Linked.spans_eq (hl : arena.Linked) (hn : arena.node? id = some node) :
    arena.spans id = .node node.span (node.kind.map arena.names.lookup arena.spans) := by
  rw [spans, hl.tree_eq hn, Tree.mapInfo_node, NodeKind.map_map]
  rfl

/-- What was there before an allocation keeps its tree. -/
theorem Linked.spans_push (hl : arena.Linked) (hs : arena.size < NodeId.maxIndex)
    (h : arena.Adoptable kind) (hn : arena.node? id = some node) :
    (arena.push kind span).spans id = arena.spans id := by
  rw [spans, spans]
  exact congrArg _ (hl.tree_congr (hl.push hs h) (names_push ..) hn fun x xnode hx _ =>
    node?_push_of_node? hs h hx)

/-- The tree under a new node is made of the trees of its children. -/
theorem Linked.spans_push_self (hl : arena.Linked) (hs : arena.size < NodeId.maxIndex)
    (h : arena.Adoptable kind) : (arena.push kind span).spans ⟨arena.size⟩ =
      .node span (kind.map arena.names.lookup arena.spans) := by
  rw [(hl.push hs h).spans_eq (node?_push_self hs h), names_push]
  refine congrArg _ (NodeKind.map_congr fun c hc => ?_)
  by_cases hca : c = .absent
  · rw [hca, spans_absent, spans_absent]
  · obtain ⟨location, hg⟩ := NodeKind.mem_occupants_iff.1 hc
    have hchild := NodeKind.mem_children_of_get? hg (NodeId.isPresent_iff.2 hca)
    obtain ⟨node, hn, -⟩ := h.attachable c (List.mem_map_of_mem hchild)
    exact hl.spans_push hs h hn

/-- The nodes under a node are there, and their trees are parts of the whole one. -/
theorem Linked.spans_mem_subtrees (hl : arena.Linked) (hn : arena.node? id = some node)
    (hu : arena.Under id x) :
    (∃ xnode, arena.node? x = some xnode) ∧ arena.spans x ∈ (arena.spans id).subtrees := by
  induction hu with
  | self =>
    refine ⟨⟨node, hn⟩, ?_⟩
    rw [hl.spans_eq hn]
    exact Tree.self_mem_subtrees _ _
  | @step x parent hp _ ih =>
    obtain ⟨⟨pnode, hpn⟩, hparent⟩ := ih
    obtain ⟨xnode, hxn, -⟩ := parent?_eq_some.1 hp
    have hspans := hl.spans_eq hxn
    refine ⟨⟨xnode, hxn⟩, Tree.mem_subtrees_trans hparent ?_⟩
    rw [hl.spans_eq hpn, Tree.mem_subtrees_node, NodeKind.occupants_map]
    refine .inr ⟨arena.spans x, List.mem_map_of_mem (hl.mem_occupants_of_parent? hp hpn), ?_⟩
    rw [hspans]
    exact Tree.self_mem_subtrees _ _

/-- The second arena has the nodes of the first one and maybe more. -/
structure Extends (arena arena' : Arena) : Prop where
  /-- The links agree. -/
  linked : arena'.Linked
  /-- The texts are the same. -/
  names : arena'.names = arena.names
  /-- The root is the same. -/
  root : arena'.root = arena.root
  /-- No node is given up. -/
  size : arena.size ≤ arena'.size
  /-- No node is changed. -/
  kept : ∀ {x node}, arena.node? x = some node → arena'.node? x = some node

namespace Extends

/-- An arena extends itself. -/
theorem refl (hl : arena.Linked) : arena.Extends arena :=
  ⟨hl, rfl, rfl, Nat.le_refl _, fun h => h⟩

/-- An extension may be extended. -/
theorem trans {middle : Arena} (h : arena.Extends middle) (h' : middle.Extends arena') :
    arena.Extends arena' :=
  ⟨h'.linked, h'.names.trans h.names, h'.root.trans h.root, Nat.le_trans h.size h'.size,
    fun hn => h'.kept (h.kept hn)⟩

/-- Every subtree is the same after an extension. -/
theorem spans_eq (h : arena.Extends arena') (hl : arena.Linked) (hn : arena.node? id = some node) :
    arena'.spans id = arena.spans id := by
  rw [spans, spans, hl.tree_congr h.linked h.names hn fun x node hn _ =>
    ⟨node, h.kept hn, rfl, rfl⟩]

/-- Nodes that are kept are attached as before. -/
theorem attachedAt (h : arena.Extends arena') {parent : NodeId} {location : Location}
    (hat : arena.AttachedAt id parent location) : arena'.AttachedAt id parent location := by
  obtain ⟨node, pnode, hn, hr, hp, hloc, hpn, hg⟩ := hat
  exact ⟨node, pnode, h.kept hn, h.root ▸ hr, hp, hloc, h.kept hpn, hg⟩

end Extends

/-- A new node without children changes no other one. -/
theorem Linked.extends_push_leaf (hl : arena.Linked) (hs : arena.size < NodeId.maxIndex)
    (kind : ArenaKind) (hleaf : kind.children = []) (span : Span) :
    arena.Extends (arena.push kind span) where
  linked := hl.push hs ⟨by simp [hleaf], by simp [hleaf]⟩
  names := names_push ..
  root := root_push ..
  size := by simp
  kept := by
    intro x node hn
    have hne : x ≠ ⟨arena.size⟩ := by
      rintro rfl
      exact absurd (index_lt_of_node? hn) (lt_irrefl _)
    rw [node?_push_other hs (by simp [hleaf]) hne, hn]

/-- A root that means something is an index in use. -/
theorem Linked.index_root_lt (hl : arena.Linked) (h : x = arena.root) (hx : x ≠ .absent) :
    x.index < arena.size := by
  rcases hl.rooted with hr | ⟨node, hn, -⟩
  · exact absurd (h.trans hr) hx
  · rw [h]
    exact index_lt_of_node? hn

/-- A parentless node that was not there before, with the tree of another node. -/
structure Copied (base arena arena' : Arena) (id copy : NodeId) : Prop where
  /-- The node is new. -/
  fresh : arena.size ≤ copy.index
  /-- The node is there and has no parent. -/
  lone : ∃ node, arena'.node? copy = some node ∧ node.parent.isPresent = false
  /-- The tree is that of the other node. -/
  spans : arena'.spans copy = base.spans id

/-- A copy is a copy after nodes are added. -/
theorem Copied.extend {middle : Arena} {copy : NodeId} (h : Copied base arena middle id copy)
    (hl : middle.Linked) (he : middle.Extends arena') : Copied base arena arena' id copy := by
  obtain ⟨node, hn, hp⟩ := h.lone
  exact ⟨h.fresh, ⟨node, he.kept hn, hp⟩, (he.spans_eq hl hn).trans h.spans⟩

/-- A copy is a node. -/
theorem Copied.ne_absent {copy : NodeId} (h : Copied base arena arena' id copy) :
    copy ≠ .absent := by
  obtain ⟨node, hn, -⟩ := h.lone
  exact NodeId.isPresent_iff.1 (isPresent_of_node? hn)

end Arena

namespace Edit

variable {arena base : Arena} {top : NodeId} {node : Node} {kind : ArenaKind} {span : Span}
  {E : Violation → Prop}

/-- An allocation of children that can be adopted fails for want of handles only. -/
theorem ends_alloc (hl : arena.Linked) (h : arena.Adoptable kind) :
    Ends (alloc kind span) arena
      (fun id arena' => id = ⟨arena.size⟩ ∧ arena' = arena.push kind span ∧
        arena.size < NodeId.maxIndex) E := by
  have hsmall := hl.small
  have hrun : (alloc kind span).run arena = .ok ⟨arena.size⟩ (arena.push kind span) := by
    rw [run_alloc, if_neg (by omega), (checkNew_eq_ok hsmall).2 h]
  refine .of_ok hrun fun hs => ⟨rfl, rfl, ?_⟩
  rw [size_push] at hs
  omega

/-- An allocation gives up no node. -/
theorem grows_alloc (kind : ArenaKind) (span : Span) : Grows (alloc kind span) := by
  intro size arena h
  rw [after, run_alloc]
  by_cases hm : NodeId.maxIndex < arena.size
  · rwa [if_pos hm]
  · rw [if_neg hm]
    cases arena.checkNew kind with
    | error v => exact h
    | ok u =>
      simp only [size_push]
      omega

/-- What copying the children of a node leads to. -/
structure CopiedAll (base arena arena' : Arena) (cs : List NodeId) (copy : NodeId → NodeId) :
    Prop where
  /-- Nodes were added. -/
  grown : arena.Extends arena'
  /-- An empty slot stays empty. -/
  absent : copy .absent = .absent
  /-- Every child has a copy. -/
  copied : ∀ c ∈ cs, c ≠ .absent → Copied base arena arena' c (copy c)
  /-- Different children have different copies. -/
  injective : ∀ c ∈ cs, ∀ d ∈ cs, c ≠ .absent → d ≠ .absent → copy c = copy d → c = d

namespace CopiedAll

variable {middle arena' : Arena} {cs : List NodeId} {copy : NodeId → NodeId}

private theorem cons_absent (h : CopiedAll base arena arena' cs copy) :
    CopiedAll base arena arena' (.absent :: cs) copy where
  grown := h.grown
  absent := h.absent
  copied d hd hd' := h.copied d ((List.mem_cons.1 hd).resolve_left hd') hd'
  injective d hd e he hd' he' := h.injective d ((List.mem_cons.1 hd).resolve_left hd') e
    ((List.mem_cons.1 he).resolve_left he') hd' he'

/-- A child is copied before the others, so its copy is none of theirs. -/
theorem cons {c b : NodeId} (hc : c ≠ .absent) (hnot : c ∉ cs) (hgrown : arena.Extends middle)
    (hcopied : Copied base arena middle c b) (h : CopiedAll base middle arena' cs copy) :
    CopiedAll base arena arena' (c :: cs) (fun d => if d = c then b else copy d) := by
  have hb := hcopied.extend hgrown.linked h.grown
  have hblt : b.index < middle.size := by
    obtain ⟨node, hn, -⟩ := hcopied.lone
    exact index_lt_of_node? hn
  have hlate : ∀ d ∈ cs, d ≠ .absent → copy d ≠ b := by
    rintro d hd hd' rfl
    have := (h.copied d hd hd').fresh
    omega
  refine ⟨hgrown.trans h.grown, ?absent, ?copied, ?injective⟩
  case absent => rw [if_neg (Ne.symm hc), h.absent]
  case copied =>
    intro d hd hd'
    by_cases hdc : d = c
    · subst hdc
      rwa [if_pos rfl]
    · rw [if_neg hdc]
      have hd'' := h.copied d ((List.mem_cons.1 hd).resolve_left hdc) hd'
      exact ⟨Nat.le_trans hgrown.size hd''.fresh, hd''.lone, hd''.spans⟩
  case injective =>
    intro d hd e he hd' he' heq
    by_cases hdc : d = c <;> by_cases hec : e = c
    · rw [hdc, hec]
    · rw [if_pos hdc, if_neg hec] at heq
      exact absurd heq.symm (hlate e ((List.mem_cons.1 he).resolve_left hec) he')
    · rw [if_neg hdc, if_pos hec] at heq
      exact absurd heq (hlate d ((List.mem_cons.1 hd).resolve_left hdc) hd')
    · rw [if_neg hdc, if_neg hec] at heq
      exact h.injective d ((List.mem_cons.1 hd).resolve_left hdc) e
        ((List.mem_cons.1 he).resolve_left hec) hd' he' heq

end CopiedAll

/-- Children are copied one after the other. By induction on the children, where the copies made
before are detached nodes that the next copy leaves alone. -/
private theorem ends_mapM_copy {f : NodeId → Edit NodeId} {cs : List NodeId}
    (hnd : (cs.filter NodeId.isPresent).Nodup)
    (habsent : ∀ arena, (f .absent).run arena = .ok .absent arena) (hgrow : ∀ c, Grows (f c))
    (hf : ∀ c ∈ cs, c ≠ .absent → ∀ arena, base.Extends arena → Ends (f c) arena
      (fun copy arena' => arena.Extends arena' ∧ Copied base arena arena' c copy) E)
    (he : base.Extends arena) :
    Ends (cs.mapM f) arena (fun bs arena' => ∃ copy, bs = cs.map copy ∧
      CopiedAll base arena arena' cs copy) E := by
  induction cs generalizing arena with
  | nil => exact .pure ⟨id, rfl, .refl he.linked, rfl, by simp, by simp⟩
  | cons c cs ih =>
    rw [List.mapM_cons]
    have hgrowAll : Grows (cs.mapM f) := fun size => .mapM fun c _ => hgrow c size
    have hrest {arena : Arena} (he : base.Extends arena) := ih
      (List.Nodup.sublist ((List.sublist_cons_self c cs).filter _) hnd)
      (fun d hd => hf d (by simp [hd])) he
    by_cases hc : c = .absent
    · subst hc
      refine .bind (Q := fun b middle => b = .absent ∧ middle = arena)
        (.of_ok (habsent arena) fun _ => ⟨rfl, rfl⟩) ?_
        fun b size => .bind (hgrowAll size) fun bs => .pure _
      rintro b middle ⟨rfl, rfl⟩
      refine .bind (hrest he) ?_ fun bs size => .pure _
      rintro bs last ⟨copy, rfl, h⟩
      exact .pure ⟨copy, by rw [List.map_cons, h.absent], h.cons_absent⟩
    · have hpres : c.isPresent = true := NodeId.isPresent_iff.2 hc
      rw [List.filter_cons_of_pos hpres, List.nodup_cons] at hnd
      have hnot : c ∉ cs := fun hm => hnd.1 (List.mem_filter.2 ⟨hm, hpres⟩)
      refine .bind (hf c (by simp) hc arena he) ?_
        fun b size => .bind (hgrowAll size) fun bs => .pure _
      rintro b middle ⟨hgrown, hcopied⟩
      refine .bind (hrest (he.trans hgrown)) ?_ fun bs size => .pure _
      rintro bs last ⟨copy, rfl, h⟩
      refine .pure ⟨_, ?_, .cons hc hnot hgrown hcopied h⟩
      have hsame : cs.map (fun d => if d = c then b else copy d) = cs.map copy :=
        List.map_congr_left fun d hd => if_neg fun (hdc : d = c) => hnot (hdc ▸ hd)
      rw [List.map_cons, if_pos rfl, hsame]

private theorem grows_copyUpTo (depth : Nat) (top : NodeId) : Grows (copyUpTo depth top) :=
  fun size => keeps_copyUpTo (fun kind span => grows_alloc kind span size) depth top

/-- Nothing is copied to nothing, to any depth. -/
theorem run_copyUpTo_absent (depth : Nat) (arena : Arena) :
    (copyUpTo depth .absent).run arena = .ok .absent arena := by
  cases depth with
  | zero => rfl
  | succ depth =>
    rw [copyUpTo, run_read_bind]
    rfl

namespace CopiedAll

variable {middle : Arena} {copy : NodeId → NodeId}

/-- The copies of the children are listed where the children are. -/
theorem children_map (h : CopiedAll base arena middle node.kind.occupants copy) :
    (node.kind.map id copy).children = node.kind.children.map fun (l, c) => (l, copy c) := by
  refine NodeKind.children_map id fun c hc => ?_
  by_cases hca : c = .absent
  · rw [hca, h.absent]
  · exact (NodeId.isPresent_iff.2 (h.copied c hc hca).ne_absent).trans
      (NodeId.isPresent_iff.2 hca).symm

/-- A child of the rebuilt kind is the copy of a child. -/
theorem exists_of_mem_children (h : CopiedAll base arena middle node.kind.occupants copy)
    (hb : base.Linked) (hn : base.node? top = some node) {x : NodeId}
    (hx : x ∈ (node.kind.map id copy).children.map Prod.snd) :
    ∃ c ∈ node.kind.occupants, x = copy c ∧ Copied base arena middle c x := by
  rw [h.children_map, List.map_map] at hx
  obtain ⟨⟨l, c⟩, hc, rfl⟩ := List.mem_map.1 hx
  obtain ⟨child, hchild, -⟩ := hb.down hn hc
  have hoccupant := NodeKind.mem_occupants_of_mem_children hc
  exact ⟨c, hoccupant, rfl,
    h.copied c hoccupant (NodeId.isPresent_iff.1 (isPresent_of_node? hchild))⟩

/-- The copies of the children are detached and distinct, so the copy of their parent can adopt
them. -/
theorem adoptable (h : CopiedAll base arena middle node.kind.occupants copy) (hb : base.Linked)
    (hl : arena.Linked) (hn : base.node? top = some node) :
    middle.Adoptable (node.kind.map id copy) := by
  constructor
  · intro x hx
    obtain ⟨c, -, -, hcopied⟩ := h.exists_of_mem_children hb hn hx
    obtain ⟨child, hchild, hp⟩ := hcopied.lone
    refine ⟨child, hchild, ?_, hp⟩
    rw [h.grown.root]
    intro hroot
    have := hl.index_root_lt hroot hcopied.ne_absent
    have := hcopied.fresh
    omega
  · rw [h.children_map, List.map_map]
    have hnd := hb.children_nodup hn
    rw [List.Nodup, List.pairwise_map] at hnd ⊢
    refine hnd.imp_of_mem ?_
    rintro ⟨l, c⟩ ⟨k, d⟩ hc hd hne he
    obtain ⟨_, hchild, -⟩ := hb.down hn hc
    obtain ⟨_, hchild', -⟩ := hb.down hn hd
    exact hne (h.injective c (NodeKind.mem_occupants_of_mem_children hc) d
      (NodeKind.mem_occupants_of_mem_children hd)
      (NodeId.isPresent_iff.1 (isPresent_of_node? hchild))
      (NodeId.isPresent_iff.1 (isPresent_of_node? hchild')) he)

/-- A new node over copies of the children of a node is a copy of that node. -/
theorem push (h : CopiedAll base arena middle node.kind.occupants copy) (hb : base.Linked)
    (he : base.Extends arena) (hn : base.node? top = some node)
    (hs : middle.size < NodeId.maxIndex) :
    arena.Extends (middle.push (node.kind.map id copy) node.span) ∧
      Copied base arena (middle.push (node.kind.map id copy) node.span) top ⟨middle.size⟩ := by
  have had := h.adoptable hb he.linked hn
  have hl' : (middle.push (node.kind.map id copy) node.span).Linked :=
    h.grown.linked.push hs had
  have hself : (middle.push (node.kind.map id copy) node.span).node? ⟨middle.size⟩ =
      some ⟨node.kind.map id copy, node.span, .absent, none⟩ := node?_push_self hs had
  refine ⟨⟨hl', by rw [names_push, h.grown.names], by rw [root_push, h.grown.root], ?_, ?_⟩,
    h.grown.size, ⟨_, hself, rfl⟩, ?_⟩
  · rw [size_push]
    have := h.grown.size
    omega
  · intro x xnode hx
    have hlt := index_lt_of_node? hx
    rw [node?_push_other hs, h.grown.kept hx]
    · intro hm
      obtain ⟨c, -, -, hcopied⟩ := h.exists_of_mem_children hb hn hm
      have := hcopied.fresh
      omega
    · rintro rfl
      have := h.grown.size
      simp only at hlt
      omega
  · rw [h.grown.linked.spans_push_self hs had, hb.spans_eq hn, NodeKind.map_map, h.grown.names,
      he.names]
    refine congrArg _ (NodeKind.map_congr fun c hc => ?_)
    rw [Function.comp_apply]
    by_cases hca : c = .absent
    · rw [hca, h.absent, spans_absent, spans_absent]
    · exact (h.copied c hc hca).spans

end CopiedAll

/-- Copying with enough steps left copies the whole tree under a node. -/
theorem ends_copyUpTo (hb : base.Linked) {depth n : Nat} (hd : base.Depth top n)
    (hn : base.node? top = some node) (hdepth : base.size ≤ depth + n) (he : base.Extends arena) :
    Ends (copyUpTo depth top) arena
      (fun copy arena' => arena.Extends arena' ∧ Copied base arena arena' top copy) E := by
  have hlt := hb.depth_lt_size hd hn
  induction depth generalizing top n node arena with
  | zero => omega
  | succ depth ih =>
    rw [copyUpTo]
    refine .read_bind ?_
    rw [he.kept hn]
    refine .bind (.traverse (yields_pure _ _) (ends_mapM_copy (E := E) ?_
        (run_copyUpTo_absent depth)
      (grows_copyUpTo depth) ?_ he)) ?_ fun kind => grows_alloc kind node.span
    · rw [show NodeId.isPresent = Occupant.isPresent from rfl, NodeKind.filter_occupants]
      exact (hb.children_nodup hn).filter _
    · intro c hc hca arena he
      rcases hb.occupant_cases hn hc with rfl | ⟨_, child, -, hchild, rfl, -⟩
      · exact absurd rfl hca
      · have hdc : base.Depth c (n + 1) :=
          .up (parent?_eq_some.2 ⟨child, hchild, rfl, isPresent_of_node? hn⟩) hd
        exact ih hdc hchild (by omega) he (hb.depth_lt_size hdc hchild)
    · rintro kind middle ⟨copy, rfl, h⟩
      refine (ends_alloc h.grown.linked (h.adoptable hb he.linked hn)).imp ?_ fun _ hv => hv
      rintro new last ⟨rfl, rfl, hs⟩
      exact h.push hb he hn hs

/-- Copying gives a parentless node with the same tree and leaves the nodes that were there alone.
-/
theorem ends_copySubtree (hl : arena.Linked) (hn : arena.node? top = some node) :
    Ends (copySubtree top) arena
      (fun copy arena' => arena.Extends arena' ∧ Copied arena arena arena' top copy) E := by
  obtain ⟨n, hd⟩ := hl.grounded hn
  refine .read_bind (.ofExcept_bind (require_eq_ok.2 hn) (.read_bind ?_))
  exact ends_copyUpTo hl hd hn (by omega) (.refl hl)

end Edit

end JavaFold
