import JavaFold.Proofs.Arena.Copy
import JavaFold.Proofs.Interner

/-!
# Trees in arenas

Allocating the nodes of a tree gives a node under which the tree is found again (`Planted`). Equal
subtrees become different nodes, so the rebuilt kind is paired with the given one position by
position, with the help of a numbering of the occupants. Source ranges play no part in what is
allocated and what is refused (`ofTree_mapInfo`).
-/

namespace JavaFold

namespace NodeKind

variable {τ σ α β : Type}

/-! ## Numbered occupants -/

/-- An occupant with the next number. -/
def number (a : α) : StateM Nat (α × Nat) :=
  modifyGet fun n => ((a, n), n + 1)

/-- A kind with its occupants numbered in order. -/
def numbered (kind : NodeKind τ α) : NodeKind τ (α × Nat) :=
  ((kind.traverse pure (fun _ => number) (fun _ as => as.mapM number) : StateM Nat _).run 0).1

private theorem run_number (a : α) (n : Nat) : (number a).run n = ((a, n), n + 1) := rfl

private theorem run_number_bind (x : StateM Nat α) (f : α → StateM Nat β) (n : Nat) :
    (x >>= f).run n = (f (x.run n).1).run (x.run n).2 := rfl

private theorem run_mapM_number (as : List α) (n : Nat) :
    (as.mapM number).run n = (as.zipIdx n, n + as.length) := by
  induction as generalizing n with
  | nil => rfl
  | cons a as ih =>
    rw [List.mapM_cons, run_number_bind, run_number_bind, run_number, ih, List.zipIdx_cons,
      List.length_cons, Nat.add_right_comm, Nat.add_assoc]
    rfl

private theorem occupants_numbered (kind : NodeKind τ α) :
    kind.numbered.occupants = kind.occupants.zipIdx := by
  cases kind <;>
    simp only [numbered, traverse, run_number, run_mapM_number, run_number_bind,
      StateT.run_pure] <;>
    simp [occupants, slots, List.zipIdx_append, pure]

private theorem map_fst_numbered (kind : NodeKind τ α) : kind.numbered.map id Prod.fst = kind := by
  cases kind <;>
    simp only [numbered, traverse, run_number, run_mapM_number, run_number_bind,
      StateT.run_pure] <;>
    simp [map, traverse, Id.run, pure, bind, List.zipIdx_map_fst]

private theorem texts_numbered (kind : NodeKind τ α) : kind.numbered.texts = kind.texts := by
  cases kind <;>
    simp only [numbered, traverse, run_number, run_mapM_number, run_number_bind,
      StateT.run_pure] <;>
    rfl

private theorem texts_map (text : τ → σ) (child : α → β) (kind : NodeKind τ α) :
    (kind.map text child).texts = kind.texts.map text := by
  cases kind <;> rfl

/-- Values of the occupants in order are values of the numbered occupants. -/
theorem exists_map_zipIdx [Inhabited β] {R : α → β → Prop} {as : List α} {bs : List β}
    (h : List.Forall₂ R as bs) :
    ∃ value : α × Nat → β, bs = as.zipIdx.map value ∧ ∀ p ∈ as.zipIdx, R p.1 (value p) := by
  refine ⟨fun p => bs.getD p.2 default, ?_, ?_⟩
  · apply List.ext_getElem?
    intro i
    by_cases hi : i < bs.length
    · simp [hi, h.length_eq ▸ hi]
    · simp [hi, h.length_eq ▸ hi]
  · rintro ⟨a, i⟩ hp
    obtain ⟨hi, he⟩ := List.getElem?_eq_some_iff.mp (List.mem_zipIdx_iff_getElem?.mp hp)
    have hib : i < bs.length := h.length_eq ▸ hi
    have hr : R as[i] bs[i] := h.get hi hib
    rw [show as[i] = a from he] at hr
    simpa [hib] using hr

/-- Rebuilding a kind whose occupants are values is rebuilding the kind with their values. -/
theorem traverse_map {m : Type → Type} [Monad m] [LawfulMonad m] {γ : Type} (text : τ → m σ)
    (f : β → m γ) (child : α → β) (kind : NodeKind τ α) :
    (kind.map id child).traverse text (fun _ => f) (fun _ bs => bs.mapM f) =
      kind.traverse text (fun _ => f ∘ child) (fun _ as => as.mapM (f ∘ child)) := by
  cases kind <;> simp [map, traverse, Id.run, pure, bind, List.mapM_map]

/-- The texts of a kind can be rebuilt after its children, because no kind has both. -/
theorem traverse_eq_bind {m : Type → Type} [Monad m] [LawfulMonad m] (text : τ → m σ)
    (one : Property → α → m β) (many : Property → List α → m (List β)) (kind : NodeKind τ α) :
    kind.traverse text one many = (do
      let kind ← kind.traverse pure one many
      kind.traverse text (fun _ => pure) (fun _ => pure)) := by
  -- the second pass is kept folded until the first one has been taken apart
  generalize hlast : (fun kind : NodeKind τ β => kind.traverse text (fun _ => pure)
      (fun _ => pure)) =
    last
  cases kind <;> dsimp only [traverse] <;> simp only [bind_assoc, pure_bind] <;> subst hlast <;>
    dsimp only [traverse] <;> simp only [pure_bind]

end NodeKind

/-! ## Arenas that only grow -/

namespace Arena

variable {arena arena' middle : Arena} {id x : NodeId} {node : Node} {kind : ArenaKind}
    {span : Span}

/-- An arena made by allocation alone: every node comes after its children, and every text in use
was interned. -/
structure Built (arena : Arena) : Prop where
  /-- The links agree. -/
  linked : arena.Linked
  /-- A child comes before its parent. -/
  ascending : ∀ {x node c}, arena.node? x = some node → c ∈ node.kind.occupants → c ≠ .absent →
    c.index < x.index
  /-- The handles of texts are in use. -/
  spelled : ∀ {x node name}, arena.node? x = some node → name ∈ node.kind.texts →
    name.index < arena.names.size

/-- An empty arena is made by no allocation. -/
theorem built_empty : Arena.empty.Built where
  linked := linked_empty
  ascending h := by simp [node?, empty] at h
  spelled h := by simp [node?, empty] at h

/-- The second arena has the nodes and the texts of the first one and maybe more. -/
structure Grown (arena arena' : Arena) : Prop where
  /-- The arena is made by allocation alone. -/
  built : arena'.Built
  /-- The root is the same. -/
  root : arena'.root = arena.root
  /-- No node is given up. -/
  size : arena.size ≤ arena'.size
  /-- No node is changed. -/
  kept : ∀ {x node}, arena.node? x = some node → arena'.node? x = some node
  /-- No text is given up. -/
  texts : arena.names.size ≤ arena'.names.size
  /-- No text is changed. -/
  lookup : ∀ {name}, name.index < arena.names.size →
    arena'.names.lookup name = arena.names.lookup name

namespace Grown

/-- An arena has grown from itself. -/
theorem refl (hb : arena.Built) : arena.Grown arena :=
  ⟨hb, rfl, Nat.le_refl _, fun h => h, Nat.le_refl _, fun _ => rfl⟩

/-- An arena that has grown may grow further. -/
theorem trans (h : arena.Grown middle) (h' : middle.Grown arena') : arena.Grown arena' where
  built := h'.built
  root := h'.root.trans h.root
  size := Nat.le_trans h.size h'.size
  kept hn := h'.kept (h.kept hn)
  texts := Nat.le_trans h.texts h'.texts
  lookup hlt := (h'.lookup (Nat.lt_of_lt_of_le hlt h.texts)).trans (h.lookup hlt)

/-- Every subtree is the same after growth, names included. -/
theorem spans_eq (h : arena.Grown arena') (hb : arena.Built) (hn : arena.node? id = some node) :
    arena'.spans id = arena.spans id := by
  rw [spans, spans, hb.linked.tree_congr_texts h.built.linked hn fun x xnode hx _ =>
    ⟨⟨xnode, h.kept hx, rfl, rfl⟩, fun name hname => h.lookup (hb.spelled hx hname)⟩]

private theorem under (h : arena.Grown arena') (hu : arena.Under id x) : arena'.Under id x := by
  induction hu with
  | self => exact .self
  | step hp _ ih =>
    obtain ⟨xnode, hn, hpar, hpres⟩ := parent?_eq_some.1 hp
    exact .step (parent?_eq_some.2 ⟨xnode, h.kept hn, hpar, hpres⟩) ih

end Grown

/-- What lies below a node stays there when another node is allocated: a node with a parent is no
child of the new one. -/
theorem Under.push {kind : ArenaKind} (hs : arena.size < NodeId.maxIndex)
    (h : arena.Adoptable kind) (hu : arena.Under id x) : (arena.push kind span).Under id x := by
  induction hu with
  | self => exact .self
  | @step y parent hp _ ih =>
    obtain ⟨node, hn, rfl, hpres⟩ := parent?_eq_some.1 hp
    have hkept : (arena.push kind span).node? y = some node := by
      rw [node?_push_other hs, hn]
      · intro hm
        obtain ⟨node', hn', -, hlone⟩ := h.attachable y hm
        cases Option.some.inj (hn.symm.trans hn')
        rw [hpres] at hlone
        cases hlone
      · rintro rfl
        exact lt_irrefl _ (index_lt_of_node? hn)
    exact .step (parent?_eq_some.2 ⟨node, hkept, rfl, hpres⟩) ih

/-- Interning a text adds to an arena. -/
theorem grown_intern (hb : arena.Built) (text : String) :
    arena.Grown { arena with names := (arena.names.intern text).2 } where
  built := {
    linked := hb.linked.withNames _
    ascending := hb.ascending
    spelled := fun hn hname =>
      Nat.lt_of_lt_of_le (hb.spelled hn hname) (arena.names.size_le_intern text) }
  root := rfl
  size := Nat.le_refl _
  kept h := h
  texts := arena.names.size_le_intern text
  lookup h := Interner.lookup_intern_of_lt h

/-- What stands for a tree in an arena: a new parentless node, unless there is no tree. -/
structure Sown (arena arena' : Arena) (tree : Tree Span) (id : NodeId) : Prop where
  /-- The tree is found under the node. -/
  spans : arena'.spans id = tree
  /-- The node is new and has no parent. -/
  lone : id ≠ .absent → arena.size ≤ id.index ∧
    ∃ node, arena'.node? id = some node ∧ node.parent.isPresent = false

namespace Sown

variable {tree : Tree Span}

/-- A tree that stands in the arena stands there after growth. -/
theorem extend (h : Sown arena middle tree id) (hb : middle.Built) (hg : middle.Grown arena') :
    Sown arena arena' tree id := by
  by_cases hid : id = .absent
  · subst hid
    exact ⟨by rw [← h.spans, spans_absent, spans_absent], fun hne => absurd rfl hne⟩
  · obtain ⟨hfresh, node, hn, hp⟩ := h.lone hid
    exact ⟨(hg.spans_eq hb hn).trans h.spans, fun _ => ⟨hfresh, node, hg.kept hn, hp⟩⟩

private theorem eq_absent_iff (h : Sown arena arena' tree id) (hl : arena'.Linked) :
    id = .absent ↔ tree = .absent := by
  constructor
  · rintro rfl
    rw [← h.spans, spans_absent]
  · intro ht
    by_contra hid
    obtain ⟨-, node, hn, -⟩ := h.lone hid
    have hspans := h.spans
    rw [hl.spans_eq hn, ht] at hspans
    cases hspans

end Sown

/-- What allocating the nodes of a tree leads to. -/
structure Planted (arena arena' : Arena) (tree : Tree Span) (id : NodeId) : Prop where
  /-- Nodes and texts were added. -/
  grown : arena.Grown arena'
  /-- The node stands for the tree. -/
  sown : Sown arena arena' tree id
  /-- Every new node lies under it. -/
  covers : ∀ {x}, arena.size ≤ x.index → x.index < arena'.size → arena'.Under id x
  /-- There is one new node for each node of the tree. -/
  size : arena'.size = arena.size + tree.preorder.length
  /-- The node comes last. -/
  last : id ≠ .absent → id.index + 1 = arena'.size

/-- What allocating the nodes of trees one after the other leads to. -/
structure PlantedAll (arena arena' : Arena) (trees : List (Tree Span)) (ids : List NodeId) :
    Prop where
  /-- Nodes and texts were added. -/
  grown : arena.Grown arena'
  /-- Each node stands for its tree. -/
  sown : List.Forall₂ (Sown arena arena') trees ids
  /-- The nodes are different. -/
  nodup : (ids.filter NodeId.isPresent).Nodup
  /-- Every new node lies under one of them. -/
  covers : ∀ {x}, arena.size ≤ x.index → x.index < arena'.size →
    ∃ id ∈ ids, id ≠ .absent ∧ arena'.Under id x
  /-- There is one new node for each node of the trees. -/
  size : arena'.size = arena.size + (trees.flatMap Tree.preorder).length

private theorem plantedAll_nil (hb : arena.Built) : PlantedAll arena arena [] [] where
  grown := .refl hb
  sown := .nil
  nodup := List.nodup_nil
  covers hle hlt := absurd hlt (Nat.not_lt.2 hle)
  size := rfl

/-- One tree and then several are several trees, whose new nodes are different. -/
theorem PlantedAll.cons {tree : Tree Span} {trees : List (Tree Span)} {ids : List NodeId}
    (h : Planted arena middle tree id) (hs : PlantedAll middle arena' trees ids) :
    PlantedAll arena arena' (tree :: trees) (id :: ids) where
  grown := h.grown.trans hs.grown
  sown := by
    refine .cons (h.sown.extend h.grown.built hs.grown) (hs.sown.imp fun t x hx => ?_)
    exact ⟨hx.spans, fun hne => (hx.lone hne).imp_left (Nat.le_trans h.grown.size)⟩
  nodup := by
    by_cases hid : id = .absent
    · rw [hid, List.filter_cons_of_neg (by simp)]
      exact hs.nodup
    · rw [List.filter_cons_of_pos (NodeId.isPresent_iff.2 hid), List.nodup_cons]
      refine ⟨fun hm => ?_, hs.nodup⟩
      -- the nodes of the other trees come after the last one of the first tree
      obtain ⟨hm, -⟩ := List.mem_filter.1 hm
      obtain ⟨i, hi, he⟩ := List.getElem_of_mem hm
      have hlt := h.last hid
      have hle := ((hs.sown.get (hs.sown.length_eq ▸ hi) hi).lone (by simpa [he] using hid)).1
      simp only [List.get_eq_getElem, he] at hle
      omega
  covers := by
    intro x hle hlt
    by_cases hx : x.index < middle.size
    · refine ⟨id, by simp, ?_, hs.grown.under (h.covers hle hx)⟩
      intro hid
      have ht := (h.sown.eq_absent_iff h.grown.built.linked).1 hid
      have hsize := h.size
      rw [ht] at hsize
      simp only [Tree.preorder, Tree.fold_absent, List.length_nil] at hsize
      omega
    · obtain ⟨y, hy, hne, hu⟩ := hs.covers (Nat.not_lt.1 hx) hlt
      exact ⟨y, by simp [hy], hne, hu⟩
  size := by
    rw [hs.size, h.size, List.flatMap_cons, List.length_append, Nat.add_assoc]

/-- The children of a node are in place, and so are its texts. -/
structure Prepared (start last : Arena) (kind : NodeKind String (Tree Span))
    (spell : String → Name) (value : Tree Span × Nat → NodeId) : Prop where
  /-- Nodes were allocated for the children. -/
  planted : PlantedAll start last kind.occupants (kind.numbered.occupants.map value)
  /-- Every child has its node. -/
  sown : ∀ p ∈ kind.numbered.occupants, Sown start last p.1 (value p)
  /-- Every text has its handle. -/
  spelled : ∀ text ∈ kind.texts, (spell text).index < last.names.size ∧
    last.names.lookup (spell text) = text

namespace Prepared

variable {start last : Arena} {kind : NodeKind String (Tree Span)} {spell : String → Name}
  {value : Tree Span × Nat → NodeId}

private theorem sown_of_mem (h : Prepared start last kind spell value) {c : NodeId}
    (hc : c ∈ (kind.numbered.map spell value).occupants) : ∃ tree, Sown start last tree c := by
  rw [NodeKind.occupants_map] at hc
  obtain ⟨p, hp, rfl⟩ := List.mem_map.1 hc
  exact ⟨p.1, h.sown p hp⟩

/-- No place among the children of a rebuilt kind is empty. -/
theorem ne_absent (h : Prepared start last kind spell value) (hf : Tree.Filled kind)
    {location : Location} {c : NodeId}
    (hc : (location, c) ∈ (kind.numbered.map spell value).children) : c ≠ .absent := by
  obtain ⟨hget, hpresent | ⟨property, index, rfl⟩⟩ := NodeKind.mem_children_iff.1 hc
  · exact NodeId.isPresent_iff.1 hpresent
  · rw [NodeKind.get?_map, Option.map_eq_some_iff] at hget
    obtain ⟨p, hp, rfl⟩ := hget
    have htree : kind.get? (.element property index) = some p.1 := by
      rw [← kind.map_fst_numbered, NodeKind.get?_map, hp, Option.map_some]
    obtain ⟨trees, hslot, hi⟩ := NodeKind.get?_element.1 htree
    have hpresent := hf.row hslot p.1 (List.mem_of_getElem? hi)
    rw [ne_eq, (h.sown p (NodeKind.mem_occupants_iff.2 ⟨_, hp⟩)).eq_absent_iff
      h.planted.grown.built.linked]
    intro he
    rw [he] at hpresent
    cases hpresent

private theorem lone_of_mem_children (h : Prepared start last kind spell value)
    (hf : Tree.Filled kind)
    {c : NodeId} (hc : c ∈ (kind.numbered.map spell value).children.map Prod.snd) :
    start.size ≤ c.index ∧ ∃ node, last.node? c = some node ∧ node.parent.isPresent = false := by
  obtain ⟨⟨location, c⟩, hm, rfl⟩ := List.mem_map.1 hc
  obtain ⟨tree, hsown⟩ := h.sown_of_mem (NodeKind.mem_occupants_of_mem_children hm)
  exact hsown.lone (h.ne_absent hf hm)

/-- Nodes allocated for the children are detached and distinct, so a node over them can adopt them.
-/
theorem adoptable (h : Prepared start last kind spell value) (hs : start.Linked)
    (hf : Tree.Filled kind) : last.Adoptable (kind.numbered.map spell value) := by
  constructor
  · intro c hc
    obtain ⟨hfresh, node, hn, hp⟩ := h.lone_of_mem_children hf hc
    refine ⟨node, hn, ?_, hp⟩
    rw [h.planted.grown.root]
    intro hroot
    have := hs.index_root_lt hroot (NodeId.isPresent_iff.1 (isPresent_of_node? hn))
    omega
  · have hall : ∀ c ∈ (kind.numbered.map spell value).children.map Prod.snd,
        Occupant.isPresent c = true := by
      intro c hc
      obtain ⟨⟨location, c⟩, hm, rfl⟩ := List.mem_map.1 hc
      exact NodeId.isPresent_iff.2 (h.ne_absent hf hm)
    rw [← List.filter_eq_self.2 hall, ← NodeKind.filter_occupants, NodeKind.occupants_map]
    exact h.planted.nodup

variable {span : Span}

/-- A node over children that were just allocated is allocated in order. -/
private theorem built_push (h : Prepared start last kind spell value) (hs : start.Linked)
    (hf : Tree.Filled kind) (hsize : last.size < NodeId.maxIndex) :
    (last.push (kind.numbered.map spell value) span).Built := by
  have had := h.adoptable hs hf
  have hb := h.planted.grown.built
  refine ⟨hb.linked.push hsize had, ?_, ?_⟩
  · intro x node' c hn' hc hne
    rcases node?_push_cases hsize had hn' with ⟨rfl, rfl⟩ | ⟨l, node, -, hn, rfl⟩ | ⟨-, -, hn⟩
    · obtain ⟨tree, hsown⟩ := h.sown_of_mem hc
      obtain ⟨-, cnode, hcn, -⟩ := hsown.lone hne
      exact index_lt_of_node? hcn
    · exact hb.ascending hn hc hne
    · exact hb.ascending hn hc hne
  · intro x node' name hn' hname
    rw [names_push]
    rcases node?_push_cases hsize had hn' with ⟨rfl, rfl⟩ | ⟨l, node, -, hn, rfl⟩ | ⟨-, -, hn⟩
    · rw [NodeKind.texts_map, NodeKind.texts_numbered] at hname
      obtain ⟨text, ht, rfl⟩ := List.mem_map.1 hname
      exact (h.spelled text ht).1
    · exact hb.spelled hn hname
    · exact hb.spelled hn hname

/-- A node over children that were just allocated changes no older node, since its children are all
new. -/
private theorem grown_push (h : Prepared start last kind spell value) (hs : start.Linked)
    (hf : Tree.Filled kind) (hsize : last.size < NodeId.maxIndex) :
    start.Grown (last.push (kind.numbered.map spell value) span) where
  built := h.built_push hs hf hsize
  root := by rw [root_push, h.planted.grown.root]
  size := by
    rw [size_push]
    exact Nat.le_succ_of_le h.planted.grown.size
  kept := by
    intro x node hn
    have hlt := index_lt_of_node? hn
    rw [node?_push_other hsize, h.planted.grown.kept hn]
    · intro hm
      have := (h.lone_of_mem_children hf hm).1
      omega
    · rintro rfl
      exact absurd hlt (Nat.not_lt.2 h.planted.grown.size)
  texts := by
    rw [names_push]
    exact h.planted.grown.texts
  lookup hlt := by rw [names_push, h.planted.grown.lookup hlt]

/-- The new node stands for the tree. -/
theorem spans_push (h : Prepared start last kind spell value) (hs : start.Linked)
    (hf : Tree.Filled kind) (hsize : last.size < NodeId.maxIndex) :
    (last.push (kind.numbered.map spell value) span).spans ⟨last.size⟩ = .node span kind := by
  rw [h.planted.grown.built.linked.spans_push_self hsize (h.adoptable hs hf), NodeKind.map_map]
  conv_rhs => rw [← kind.map_fst_numbered]
  refine congrArg _ (Eq.trans (NodeKind.map_congr_texts fun text ht => ?_)
    (NodeKind.map_congr fun p hp => ?_))
  · rw [NodeKind.texts_numbered] at ht
    exact (h.spelled text ht).2
  · rw [Function.comp_apply, ← (h.sown p hp).spans]

/-- The new node lies above all nodes that were allocated for its children. -/
theorem covers_push (h : Prepared start last kind spell value) (hs : start.Linked)
    (hf : Tree.Filled kind) (hsize : last.size < NodeId.maxIndex) {x : NodeId}
    (hle : start.size ≤ x.index) (hlt : x.index < last.size + 1) :
    (last.push (kind.numbered.map spell value) span).Under ⟨last.size⟩ x := by
  have had := h.adoptable hs hf
  have hself : (last.push (kind.numbered.map spell value) span).node? ⟨last.size⟩ =
      some ⟨kind.numbered.map spell value, span, .absent, none⟩ := node?_push_self hsize had
  have hl' : (last.push (kind.numbered.map spell value) span).Linked :=
    h.planted.grown.built.linked.push hsize had
  by_cases hx : x.index = last.size
  · obtain rfl : x = ⟨last.size⟩ := by
      cases x
      exact congrArg NodeId.mk hx
    exact .self
  · obtain ⟨c, hc, hne, hu⟩ := h.planted.covers hle (by omega)
    rw [← NodeKind.occupants_map spell value] at hc
    exact .trans (.step (hl'.parent?_of_mem_occupants hself hc hne) .self) (hu.push hsize had)

/-- A new node over the nodes of its children completes a tree. -/
theorem planted_push (h : Prepared start last kind spell value) (hs : start.Linked)
    (hf : Tree.Filled kind) (hsize : last.size < NodeId.maxIndex) :
    Planted start (last.push (kind.numbered.map spell value) span) (.node span kind)
      ⟨last.size⟩ where
  grown := h.grown_push hs hf hsize
  sown := by
    refine ⟨h.spans_push hs hf hsize, fun _ => ⟨h.planted.grown.size, ?_⟩⟩
    exact ⟨_, node?_push_self hsize (h.adoptable hs hf), rfl⟩
  covers hle hlt := by
    rw [size_push] at hlt
    exact h.covers_push hs hf hsize hle hlt
  size := by
    rw [size_push, h.planted.size, Tree.preorder_node, List.length_cons, Nat.add_assoc]
  last _ := by rw [size_push]

end Prepared

private theorem Planted.of_grown {start : Arena} {tree : Tree Span} (hg : arena.Grown start)
    (hsize : start.size = arena.size) (h : Planted start arena' tree id) :
    Planted arena arena' tree id where
  grown := hg.trans h.grown
  sown := ⟨h.sown.spans, fun hne => hsize ▸ h.sown.lone hne⟩
  covers hle hlt := h.covers (hsize ▸ hle) hlt
  size := hsize ▸ h.size
  last := h.last

private theorem planted_absent (hb : arena.Built) : Planted arena arena .absent .absent where
  grown := .refl hb
  sown := ⟨spans_absent arena, fun hne => absurd rfl hne⟩
  covers hle hlt := absurd hlt (Nat.not_lt.2 hle)
  size := rfl
  last hne := absurd rfl hne

end Arena

namespace Edit

open Arena

variable {arena middle : Arena} {E : Violation → Prop}

/-- Allocate the nodes of a tree, children first. An empty place takes no node. -/
def plant : Tree Span → Edit NodeId :=
  Tree.fold (return .absent) fun span kind => do
    alloc (← kind.traverse intern (fun _ child => child) (fun _ children => children.mapM id)) span

private theorem plant_node (span : Span) (kind : NodeKind String (Tree Span)) :
    plant (.node span kind) = (do
      alloc (← kind.traverse intern (fun _ => plant) (fun _ trees => trees.mapM plant)) span) := by
  rw [plant, Tree.fold_node]
  exact congrArg (· >>= fun kind => alloc kind span) (NodeKind.traverse_map intern id plant kind)

/-- The nodes of a tree are those of the children and one more. -/
theorem plant_node_eq (span : Span) (kind : NodeKind String (Tree Span)) :
    plant (.node span kind) = (do
      let kind ← kind.traverse pure (fun _ => plant) (fun _ trees => trees.mapM plant)
      allocSpelled kind span) := by
  rw [plant_node, NodeKind.traverse_eq_bind, bind_assoc]
  rfl

private theorem grows_intern (text : String) : Grows (intern text) := fun _ _ h => h

/-- Allocating a tree gives up no node. -/
theorem grows_plant (tree : Tree Span) : Grows (plant tree) := by
  induction tree using Tree.byOccupants with
  | absent => exact fun _ => .pure _
  | node span kind ih =>
    rw [plant_node]
    refine fun size => .bind ?_ fun kind => grows_alloc kind span size
    exact .traverse (fun text => grows_intern text size) (fun _ c hc => ih c hc size)
      fun _ cs hcs => .mapM fun c hc => ih c (hcs c hc) size

private theorem ends_mapM_plant {trees : List (Tree Span)} (hb : arena.Built)
    (h : ∀ tree ∈ trees, ∀ arena : Arena, arena.Built →
      Ends (plant tree) arena (fun id arena' => Planted arena arena' tree id) E) :
    Ends (trees.mapM plant) arena (fun ids arena' => PlantedAll arena arena' trees ids) E := by
  induction trees generalizing arena with
  | nil => exact .pure (plantedAll_nil hb)
  | cons tree trees ih =>
    obtain ⟨hfirst, hrest⟩ := List.forall_mem_cons.1 h
    have hgrow : Grows (trees.mapM plant) := fun size => .mapM fun t _ => grows_plant t size
    rw [List.mapM_cons]
    refine .bind (hfirst arena hb) ?_ fun id size => .bind (hgrow size) fun ids => .pure _
    intro id middle hid
    refine .bind (ih hid.grown.built hrest) ?_ fun ids size => .pure _
    intro ids last hids
    exact .pure (.cons hid hids)

/-- The texts of a node get handles that are looked up as the texts. -/
theorem exists_yields_intern (hb : arena.Built) (kind : NodeKind String (Tree Span)) :
    ∃ spell start, Yields intern spell kind.texts arena start ∧ arena.Grown start ∧
      start.size = arena.size ∧ ∀ text ∈ kind.texts, (spell text).index < start.names.size ∧
        start.names.lookup (spell text) = text := by
  have hcases : kind.texts = [] ∨ ∃ text, kind.texts = [text] := by
    cases kind <;> simp [NodeKind.texts]
  rcases hcases with hnone | ⟨text, hone⟩
  · rw [hnone]
    exact ⟨fun _ => .empty, arena, yields_nil.2 rfl, .refl hb, rfl, by simp⟩
  · rw [hone]
    refine ⟨fun _ => (arena.names.intern text).1, _, yields_cons.2 ⟨_, run_intern text arena,
      yields_nil.2 rfl⟩, grown_intern hb text, rfl, ?_⟩
    simp only [List.mem_singleton, forall_eq]
    exact ⟨arena.names.index_intern_lt text, arena.names.lookup_intern text⟩

/-- Allocating the nodes of a tree without gaps is not refused while there are handles, and gives a
node under which the tree is found. -/
theorem ends_plant {tree : Tree Span} (ht : tree ≠ .absent → tree.Complete) (hb : arena.Built) :
    Ends (plant tree) arena (fun id arena' => Planted arena arena' tree id) E := by
  induction tree using Tree.byOccupants generalizing arena with
  | absent => exact .pure (planted_absent hb)
  | node span kind ih =>
    obtain ⟨filled, below⟩ := ht nofun
    obtain ⟨spell, start, hyields, hgrown, hsize, hspell⟩ := exists_yields_intern hb kind
    -- equal subtrees become different nodes, so the occupants are told apart by their numbers
    have htraverse := NodeKind.traverse_map intern plant Prod.fst kind.numbered
    rw [kind.map_fst_numbered] at htraverse
    rw [plant_node, htraverse]
    have hplanted : Ends (kind.numbered.occupants.mapM (plant ∘ Prod.fst)) start
        (fun ids last => ∃ value, ids = kind.numbered.occupants.map value ∧
          Prepared start last kind spell value) E := by
      rw [← List.mapM_map, NodeKind.occupants_numbered, List.zipIdx_map_fst]
      refine (ends_mapM_plant hgrown.built fun tree hm arena hb =>
        ih tree hm (below tree hm) hb).imp ?_ fun _ hv => hv
      intro ids last h
      obtain ⟨value, rfl, hvalue⟩ := NodeKind.exists_map_zipIdx h.sown
      rw [← NodeKind.occupants_numbered] at hvalue h ⊢
      refine ⟨value, rfl, h, hvalue, fun text htext => ?_⟩
      obtain ⟨hlt, hlookup⟩ := hspell text htext
      exact ⟨Nat.lt_of_lt_of_le hlt h.grown.texts, (h.grown.lookup hlt).trans hlookup⟩
    rw [← NodeKind.texts_numbered] at hyields
    refine .bind (.traverse hyields hplanted) ?_ fun kind => grows_alloc kind span
    rintro _ last ⟨value, rfl, h⟩
    refine (ends_alloc h.planted.grown.built.linked
      (h.adoptable hgrown.built.linked filled)).imp ?_ fun _ hv => hv
    rintro id arena' ⟨rfl, rfl, hlast⟩
    exact (h.planted_push hgrown.built.linked filled hlast).of_grown hgrown hsize

/-! ## The number of nodes -/

/-- A change adds at most a number of nodes, whether or not it is refused. -/
def Adds {α : Type} (n : Nat) (edit : Edit α) : Prop :=
  ∀ arena, (edit.after arena).size ≤ arena.size + n

namespace Adds

variable {α β : Type} {m n : Nat}

/-- Two changes add as many nodes as each of them does. -/
theorem bind {x : Edit α} {f : α → Edit β} (hx : Adds m x) (hf : ∀ a, Adds n (f a)) :
    Adds (m + n) (x >>= f) := by
  intro arena
  have hmiddle := hx arena
  rw [after_bind]
  rw [after] at hmiddle
  cases hr : x.run arena with
  | ok a middle =>
    rw [hr] at hmiddle
    have hlast := hf a middle
    simp only at hmiddle ⊢
    omega
  | error v middle =>
    rw [hr] at hmiddle
    simp only at hmiddle ⊢
    omega

/-- Changes one after the other add as many nodes as each of them does. -/
theorem mapM {f : α → Edit β} {count : α → Nat} {as : List α}
    (hf : ∀ a ∈ as, Adds (count a) (f a)) :
    Adds (as.map count).sum (as.mapM f) := by
  induction as with
  | nil => exact fun arena => Nat.le_refl _
  | cons a as ih =>
    obtain ⟨hfirst, hrest⟩ := List.forall_mem_cons.1 hf
    rw [List.mapM_cons, List.map_cons, List.sum_cons]
    exact .bind hfirst fun b => .bind (n := 0) (ih hrest) fun bs arena => Nat.le_refl _

/-- An allocation adds one node at most. -/
theorem alloc (kind : ArenaKind) (span : Span) : Adds 1 (Edit.alloc kind span) := by
  intro arena
  rw [after, run_alloc]
  by_cases hm : NodeId.maxIndex < arena.size
  · rw [if_pos hm]
    exact Nat.le_succ _
  · rw [if_neg hm]
    cases arena.checkNew kind with
    | error v => exact Nat.le_succ _
    | ok u => exact (size_push ..).le

end Adds

/-- Allocating a tree adds one node for each of its own at most, also where it is refused halfway.
-/
private theorem adds_plant (tree : Tree Span) : Adds tree.preorder.length (plant tree) := by
  induction tree using Tree.byOccupants with
  | absent => exact fun arena => Nat.le_refl _
  | node span kind ih =>
    have htexts : Adds (kind.texts.map fun _ => 0).sum (kind.texts.mapM intern) :=
      .mapM fun text _ arena => Nat.le_refl _
    have hnodes : Adds (kind.occupants.map fun t => t.preorder.length).sum
        (kind.traverse intern (fun _ => plant) fun _ trees => trees.mapM plant) := by
      intro arena
      rw [← after_discard, discard_traverse]
      have hnothing : Adds 0 (pure () : Edit Unit) := fun _ => Nat.le_refl _
      have hparts := htexts.bind fun _ => (Adds.mapM ih).bind fun _ => hnothing
      simpa using hparts arena
    rw [plant_node, Tree.preorder_node, List.length_cons, List.length_flatMap]
    exact hnodes.bind fun kind => Adds.alloc kind span

end Edit

/-! ## The arena of a tree -/

namespace Arena

variable {arena : Arena} {tree : Tree Span}

/-- The arena of one tree, whose nodes are allocated in a fresh arena and whose top becomes the
root. -/
def ofTree (tree : Tree Span) : Except Violation Arena :=
  match (do Edit.setRoot (← Edit.plant tree) : Edit Unit).run .empty with
  | .ok _ arena => .ok arena
  | .error violation _ => .error violation

/-- An arena that holds the nodes of one tree. -/
structure Holds (arena : Arena) (tree : Tree Span) : Prop where
  /-- The arena is made by allocation alone. -/
  built : arena.Built
  /-- The tree is found under the root. -/
  spans : arena.spans arena.root = tree
  /-- The root is a node. -/
  rooted : arena.contains arena.root = true
  /-- The root comes last. -/
  last : arena.root.index + 1 = arena.size
  /-- Every node lies under the root. -/
  covers : ∀ {x}, x.index < arena.size → arena.Under arena.root x
  /-- There is one node for each node of the tree. -/
  size : arena.size = tree.preorder.length

/-- Designating the node of a tree as the root completes its arena. -/
theorem Planted.holds {id : NodeId} (h : Planted .empty arena tree id) (ht : tree.Complete) :
    arena.checkParentless id = .ok () ∧ ({ arena with root := id } : Arena).Holds tree := by
  have hb := h.grown.built
  have hid : id ≠ .absent := by
    rw [ne_eq, h.sown.eq_absent_iff hb.linked]
    intro he
    have hp := ht.isPresent
    rw [he] at hp
    cases hp
  obtain ⟨-, node, hn, hlone⟩ := h.sown.lone hid
  have hlinked := hb.linked.withRoot hn hlone
  refine ⟨checkParentless_eq_ok.2 ⟨node, hn, hlone⟩, ⟨hlinked, hb.ascending, hb.spelled⟩, ?_,
    contains_iff.2 ⟨node, hn⟩, h.last hid, fun hlt => (h.covers (Nat.zero_le _) hlt).congr
        fun _ => rfl, ?_⟩
  · rw [← h.sown.spans, spans, spans, hb.linked.tree_congr hlinked rfl hn fun x xnode hx _ =>
      ⟨xnode, hx, rfl, rfl⟩]
  · exact h.size.trans (Nat.zero_add _)

/-- With more nodes than handles, the node of a tree is the one that stands for no node. -/
theorem eq_absent_of_run_plant {id : NodeId} (ht : tree.Complete)
    (h : (Edit.plant tree).run .empty = .ok id arena) (hs : NodeId.maxIndex < arena.size) :
    id = .absent := by
  obtain ⟨-, -⟩ := ht
  rw [Edit.plant_node, Edit.run_bind_eq_ok] at h
  obtain ⟨kind, middle, -, h⟩ := h
  obtain ⟨hle, -, rfl, rfl⟩ := Edit.run_alloc_eq_ok.1 h
  rw [size_push] at hs
  rw [NodeId.absent, NodeId.mk.injEq]
  omega

/-- A tree without gaps gets an arena of its own, unless it has more nodes than there are handles.
-/
theorem ofTree_cases (ht : tree.Complete) :
    (tree.preorder.length ≤ NodeId.maxIndex ∧ ∃ arena, ofTree tree = .ok arena ∧
      arena.Holds tree) ∨
    (NodeId.maxIndex < tree.preorder.length ∧ ∃ violation, ofTree tree = .error violation) := by
  have hends : Edit.Ends (Edit.plant tree) .empty
      (fun id arena => Planted .empty arena tree id) fun _ => False :=
    Edit.ends_plant (fun _ => ht) built_empty
  have hadds := Edit.adds_plant tree .empty
  rw [Edit.after] at hadds
  rw [Edit.Ends] at hends
  rw [ofTree]
  cases hrun : (Edit.plant tree).run .empty with
  | error violation last =>
    rw [hrun] at hends hadds
    rw [Edit.run_bind_error hrun]
    have hs : ¬ last.size ≤ NodeId.maxIndex := hends
    simp only [size, empty, List.size_toArray, List.length_nil, Nat.zero_add] at hs hadds
    exact .inr ⟨by omega, violation, rfl⟩
  | ok id last =>
    rw [hrun] at hends hadds
    rw [Edit.run_bind_ok hrun, Edit.run_setRoot]
    by_cases hs : last.size ≤ NodeId.maxIndex
    · have hplanted := hends hs
      obtain ⟨hcheck, hholds⟩ := hplanted.holds ht
      rw [hcheck]
      refine .inl ⟨?_, _, rfl, hholds⟩
      rw [← hholds.size]
      exact hs
    · have hid := eq_absent_of_run_plant ht hrun (Nat.not_le.1 hs)
      have hcheck : last.checkParentless id = .error (.absentNode id) := by
        rw [checkParentless, hid, require, node?_absent]
        rfl
      rw [hcheck]
      simp only [size, empty, List.size_toArray, List.length_nil, Nat.zero_add] at hs hadds
      exact .inr ⟨by omega, _, rfl⟩

end Arena

end JavaFold
