import JavaFold.Proofs.Arena.Copy
import JavaFold.Proofs.Tree.Collapse

/-!
# The walk of the rule over an arena

The rule goes through the nodes under a node, children first, while it changes the arena under way.
What this leads to is stated by `Walked`: another node may stand in the place of the first one, its
tree is the first one without the parentheses around literals, and apart from that place nothing
outside has changed. The walk over the children of a node is put together from the walks over each
of them (`WalkedAll`), which do not get in each other's way, since no node lies under two children.
-/

namespace JavaFold

/-- The handle that stands for another one after `old` has been replaced by `new`. -/
def NodeId.replace (old new id : NodeId) : NodeId :=
  if id = old then new else id

namespace ParenthesizedLiteral

open Arena Edit

variable {arena arena' : Arena} {top x parent : NodeId} {node : Node}

/-- A node that has no parent and lies nowhere in a kind can be replaced there without effect. -/
theorem map_replace_eq {kind : ArenaKind} {old new : NodeId} (h : old ∉ kind.occupants) :
    kind.map id (NodeId.replace old new) = kind := by
  conv_rhs => rw [← kind.map_id]
  refine NodeKind.map_congr fun c hc => ?_
  have hne : c ≠ old := fun he => h (he ▸ hc)
  rw [NodeId.replace, if_neg hne, id]

/-- What the walk over the nodes under a node leads to. -/
structure Walked (arena arena' : Arena) (old new : NodeId) : Prop where
  /-- The links agree. -/
  linked : arena'.Linked
  /-- The texts are the same. -/
  names : arena'.names = arena.names
  /-- No node is given up. -/
  size : arena.size ≤ arena'.size
  /-- The root is replaced if it is the node. -/
  root : arena'.root = NodeId.replace old new arena.root
  /-- Outside, the node is replaced wherever it is a child, and nothing else changes. -/
  outside : ∀ {x node}, arena.node? x = some node → ¬ arena.Under old x →
    arena'.node? x = some { node with kind := node.kind.map id (NodeId.replace old new) }
  /-- The node stays or is replaced by a new one. -/
  fresh : new = old ∨ arena.size ≤ new.index
  /-- The new node is in the place of the old one. -/
  place : ∀ {node}, arena.node? old = some node → ∃ node', arena'.node? new = some node' ∧
    node'.parent = node.parent ∧ node'.location = node.location
  /-- The tree is the one before without the parentheses around literals. -/
  spans : arena'.spans new = (arena.spans old).collapse

/-- What the walk over the nodes under some children of a node leads to. -/
structure WalkedAll (arena arena' : Arena) (cs : List NodeId) (move : NodeId → NodeId) : Prop where
  /-- The links agree. -/
  linked : arena'.Linked
  /-- The texts are the same. -/
  names : arena'.names = arena.names
  /-- No node is given up. -/
  size : arena.size ≤ arena'.size
  /-- The root is the same. -/
  root : arena'.root = arena.root
  /-- Only the children are replaced. -/
  fixed : ∀ {x}, x ∉ cs → move x = x
  /-- Outside, the children are replaced wherever they occur, and nothing else changes. -/
  outside : ∀ {x node}, arena.node? x = some node → (∀ c ∈ cs, ¬ arena.Under c x) →
    arena'.node? x = some { node with kind := node.kind.map id move }
  /-- Every child stands for a tree without parentheses around literals. -/
  spans : ∀ {c}, c ∈ cs → arena'.spans (move c) = (arena.spans c).collapse

private theorem not_mem_occupants_of_ne (hl : arena.Linked) (hx : arena.parent? x = some parent)
    (hn : arena.node? top = some node) (hne : top ≠ parent) : x ∉ node.kind.occupants := by
  intro hm
  obtain ⟨xnode, hxn, -⟩ := parent?_eq_some.1 hx
  have hxa : x ≠ .absent := NodeId.isPresent_iff.1 (isPresent_of_node? hxn)
  exact hne (Option.some.inj ((hl.parent?_of_mem_occupants hn hm hxa).symm.trans hx))

namespace Walked

variable {c c' d : NodeId}

/-- The walk under one child leaves the nodes under the other children of the same node alone. -/
theorem sibling (h : Walked arena arena' c c') (hl : arena.Linked)
    (hc : arena.parent? c = some parent) (hd : arena.parent? d = some parent) (hne : c ≠ d)
    (hn : arena.node? x = some node) (hu : arena.Under d x) : arena'.node? x = some node := by
  have hnot : ¬ arena.Under c x := hl.not_under_of_siblings hd hc (Ne.symm hne) hu
  have hxp : x ≠ parent := by
    rintro rfl
    exact hl.not_under_parent hd hu
  rw [h.outside hn hnot, map_replace_eq (not_mem_occupants_of_ne hl hc hn hxp)]

/-- A walk through one child leaves the other children of its parent attached. -/
theorem parent?_sibling (h : Walked arena arena' c c') (hl : arena.Linked)
    (hc : arena.parent? c = some parent) (hd : arena.parent? d = some parent) (hne : c ≠ d) :
    arena'.parent? d = some parent := by
  obtain ⟨dnode, hdn, hpar, hp⟩ := parent?_eq_some.1 hd
  exact parent?_eq_some.2 ⟨dnode, h.sibling hl hc hd hne hdn .self, hpar, hp⟩

/-- A walk through one child leaves the subtrees of the other children as they were. -/
theorem tree_sibling (h : Walked arena arena' c c') (hl : arena.Linked)
    (hc : arena.parent? c = some parent) (hd : arena.parent? d = some parent) (hne : c ≠ d) :
    arena'.tree d = arena.tree d := by
  obtain ⟨dnode, hdn, -⟩ := parent?_eq_some.1 hd
  exact hl.tree_congr h.linked h.names hdn fun x node hn hu =>
    ⟨node, h.sibling hl hc hd hne hn hu, rfl, rfl⟩

/-- The nodes still to be visited are the same after the walk under one child. -/
theorem flatMap_postorder (h : Walked arena arena' c c') (hl : arena.Linked)
    (hc : arena.parent? c = some parent) {cs : List NodeId} (hnot : c ∉ cs)
    (hcs : ∀ d ∈ cs, arena.parent? d = some parent) :
    cs.flatMap arena'.postorder = cs.flatMap arena.postorder := by
  refine List.flatMap_congr fun d hd => ?_
  rw [postorder, postorder, h.tree_sibling hl hc (hcs d hd) fun he => hnot (he ▸ hd)]

private theorem parent?_new (h : Walked arena arena' c c') (hc : arena.parent? c = some parent) :
    arena'.parent? c' = some parent := by
  obtain ⟨cnode, hcn, hpar, hp⟩ := parent?_eq_some.1 hc
  obtain ⟨node', hn', hpar', -⟩ := h.place hcn
  exact parent?_eq_some.2 ⟨node', hn', hpar'.trans hpar, hp⟩

end Walked

section Siblings

variable {middle : Arena} {c c' : NodeId} {cs : List NodeId} {move : NodeId → NodeId}

/-- What took the place of a child is none of the other children: it is that child, or new. -/
private theorem Walked.not_mem_siblings (h : Walked arena middle c c') (hnot : c ∉ cs)
    (hd : ∀ d ∈ cs, arena.parent? d = some parent) : c' ∉ cs := by
  intro hm
  rcases h.fresh with rfl | hfresh
  · exact hnot hm
  · obtain ⟨node, hn, -⟩ := parent?_eq_some.1 (hd c' hm)
    have := index_lt_of_node? hn
    omega

/-- The walks under the other children leave the tree alone that took the place of a child. -/
private theorem WalkedAll.tree_sibling (hs : WalkedAll middle arena' cs move)
    (hl : middle.Linked) (hc : middle.parent? c = some parent) (hnot : c ∉ cs)
    (hd : ∀ d ∈ cs, middle.parent? d = some parent) : arena'.tree c = middle.tree c := by
  obtain ⟨node, hn, -⟩ := parent?_eq_some.1 hc
  refine hl.tree_congr hs.linked hs.names hn ?_
  intro x node hn hu
  have hxp : x ≠ parent := by
    rintro rfl
    exact hl.not_under_parent hc hu
  have hout : ∀ d ∈ cs, ¬ middle.Under d x := fun d hm =>
    hl.not_under_of_siblings hc (hd d hm) (fun hcd => hnot (hcd ▸ hm)) hu
  refine ⟨_, hs.outside hn hout, ?_, rfl⟩
  conv_rhs => rw [← node.kind.map_id]
  refine NodeKind.map_congr fun d hm => hs.fixed fun hcs => ?_
  exact not_mem_occupants_of_ne hl (hd d hcs) hn hxp hm

/-- The walks under one child and under the other children of a node make one walk. -/
theorem WalkedAll.cons (hl : arena.Linked) (hnot : c ∉ cs)
    (hparent : ∀ d ∈ c :: cs, arena.parent? d = some parent) (h : Walked arena middle c c')
    (hs : WalkedAll middle arena' cs move) :
    WalkedAll arena arena' (c :: cs) (move ∘ NodeId.replace c c') := by
  obtain ⟨hc, hd⟩ := List.forall_mem_cons.1 hparent
  have hne {d : NodeId} (hd : d ∈ cs) : c ≠ d := fun he => hnot (he ▸ hd)
  have hc' := h.not_mem_siblings hnot hd
  obtain ⟨cnode, hcn, -, hpp⟩ := parent?_eq_some.1 hc
  have hroot : c ≠ arena.root := by
    rintro rfl
    rcases hl.rooted with hr | ⟨node, hn, hp⟩
    · rw [hr] at hcn
      simp at hcn
    · rw [(parent?_eq_none_of_node? hn).2 hp] at hc
      cases hc
  refine ⟨hs.linked, hs.names.trans h.names, Nat.le_trans h.size hs.size, ?_, ?_, ?_, ?_⟩
  · rw [hs.root, h.root, NodeId.replace, if_neg (Ne.symm hroot)]
  · intro x hx
    rw [List.mem_cons, not_or] at hx
    rw [Function.comp_apply, NodeId.replace, if_neg hx.1, hs.fixed hx.2]
  · intro x node hn hout
    have hmid := h.outside hn (hout c (by simp))
    rw [hs.outside hmid ?_, NodeKind.map_map]
    · rfl
    · intro d hdm hu
      obtain ⟨dnode, hdn, -⟩ := parent?_eq_some.1 (hd d hdm)
      refine hout d (by simp [hdm]) (hl.under_congr h.linked hdn ?_ hu)
      exact fun x node hn hu => ⟨node, h.sibling hl hc (hd d hdm) (hne hdm) hn hu, rfl⟩
  · intro d hdm
    rcases List.mem_cons.1 hdm with rfl | hdm
    · rw [Function.comp_apply, NodeId.replace, if_pos rfl, hs.fixed hc', ← h.spans, Arena.spans,
        Arena.spans, hs.tree_sibling h.linked (h.parent?_new hc) hc' fun d hm =>
          h.parent?_sibling hl hc (hd d hm) (hne hm)]
    · rw [Function.comp_apply, NodeId.replace, if_neg (Ne.symm (hne hdm)), hs.spans hdm,
        Arena.spans, h.tree_sibling hl hc (hd d hdm) (hne hdm)]
      rfl

end Siblings

/-! ## Putting a copy in the place of a node -/

/-- What putting a new node in the place of another one leads to. -/
structure Spliced (arena arena' : Arena) (old new : NodeId) : Prop where
  /-- The links agree. -/
  linked : arena'.Linked
  /-- The texts are the same. -/
  names : arena'.names = arena.names
  /-- No node is given up. -/
  size : arena.size ≤ arena'.size
  /-- The root is replaced if it is the node. -/
  root : arena'.root = NodeId.replace old new arena.root
  /-- The node is replaced wherever it is a child, and nothing else changes. -/
  others : ∀ {x node}, arena.node? x = some node → x ≠ old →
    arena'.node? x = some { node with kind := node.kind.map id (NodeId.replace old new) }
  /-- The node itself is detached. -/
  vacated : ∀ {node}, arena.node? old = some node →
    arena'.node? old = some { node with parent := .absent, location := none }
  /-- The new node is in the place of the old one. -/
  place : ∀ {node}, arena.node? old = some node → ∃ node', arena'.node? new = some node' ∧
    node'.parent = node.parent ∧ node'.location = node.location

variable {base middle : Arena} {inner literal : NodeId}

/-- Nothing that was there before lies under a copy. -/
theorem not_under_copy (hl : arena.Linked) (he : arena.Extends middle)
    (hc : Copied base arena middle inner literal) (hn : arena.node? x = some node) :
    ¬ middle.Under literal x := by
  intro hu
  induction hu generalizing node with
  | self =>
    have := index_lt_of_node? hn
    have := hc.fresh
    omega
  | step hp _ ih =>
    obtain ⟨node', hn', hpar, hpp⟩ := parent?_eq_some.1 hp
    cases Option.some.inj (hn'.symm.trans (he.kept hn))
    obtain ⟨pnode, hpn⟩ := hl.parent_contained (parent?_eq_some.2 ⟨node, hn, hpar, hpp⟩)
    exact ih hpn

/-- A copy takes the place of the root. -/
theorem splice_root (hl : arena.Linked) (hn : arena.node? top = some node)
    (hroot : top = arena.root) (he : arena.Extends middle)
    (hc : Copied base arena middle inner literal) :
    ∃ arena', (splice top literal).run middle = .ok () arena' ∧ Spliced arena arena' top literal ∧
      arena'.spans literal = middle.spans literal := by
  obtain ⟨lnode, hln, hlp⟩ := hc.lone
  have hlocation : middle.locationOf top = .ok none :=
    locationOf_eq_ok.2 ⟨node, he.kept hn, .inl ⟨hroot.trans he.root.symm, rfl⟩⟩
  have hrun : (splice top literal).run middle = .ok () { middle with root := literal } := by
    rw [splice, run_read_bind, hlocation, run_bind_ok (run_ofExcept_ok _ _)]
    change (setRoot literal).run middle = _
    rw [run_setRoot, checkParentless_eq_ok.2 ⟨lnode, hln, hlp⟩]
  have hlinked := he.linked.withRoot hln hlp
  have hparentless : node.parent.isPresent = false := by
    rcases hl.rooted with hr | ⟨node', hn', hp'⟩
    · rw [hroot, hr] at hn
      simp at hn
    · rw [← hroot] at hn'
      cases Option.some.inj (hn.symm.trans hn')
      exact hp'
  have habsent {id : NodeId} (h : id.isPresent = false) : id = .absent := by
    simpa [NodeId.isPresent] using h
  refine ⟨_, hrun, ⟨hlinked, he.names, he.size, ?_, ?_, ?_, ?_⟩, ?_⟩
  · rw [NodeId.replace, if_pos hroot.symm]
  · intro x xnode hx _
    rw [map_replace_eq]
    · exact he.kept hx
    · intro hm
      have htop : top ≠ .absent := NodeId.isPresent_iff.1 (isPresent_of_node? hn)
      have hp := hl.parent?_of_mem_occupants hx hm htop
      rw [(parent?_eq_none_of_node? hn).2 hparentless] at hp
      cases hp
  · intro node' hn'
    cases Option.some.inj (hn.symm.trans hn')
    rw [← habsent hparentless, ← hl.lone hn hparentless]
    exact he.kept hn
  · intro node' hn'
    cases Option.some.inj (hn.symm.trans hn')
    refine ⟨lnode, hln, ?_, ?_⟩
    · rw [habsent hlp, habsent hparentless]
    · rw [he.linked.lone hln hlp, hl.lone hn hparentless]
  · rw [Arena.spans, Arena.spans]
    exact congrArg _ (he.linked.tree_congr hlinked rfl hln fun x xnode hx _ =>
        ⟨xnode, hx, rfl, rfl⟩)

/-- A copy may take the slot of an attached node. -/
theorem exists_replaceable (hl : arena.Linked) (hn : arena.node? top = some node)
    (hp : node.parent.isPresent = true) (he : arena.Extends middle)
    (hc : Copied base arena middle inner literal) :
    ∃ location, middle.Replaceable top literal node.parent location := by
  obtain ⟨location, hat⟩ := he.linked.attachedAt (he.kept hn) hp
  refine ⟨location, hat, hc.lone, ?_, not_under_copy hl he hc hn⟩
  rw [he.root]
  intro hr
  have := hl.index_root_lt hr hc.ne_absent
  have := hc.fresh
  omega

section Replaced

variable {location : Location}

/-- An attached node leaves its place by a replacement. -/
theorem run_splice_of_replaceable (hl : middle.Linked)
    (hr : middle.Replaceable top literal parent location) :
    (splice top literal).run middle = .ok () (middle.replaced top literal parent location) := by
  obtain ⟨tnode, pnode, htn, htr, rfl, hloc, hpn, -⟩ := hr.attached
  have hlocation : middle.locationOf top = .ok (some location) :=
    locationOf_eq_ok.2 ⟨tnode, htn, .inr ⟨htr, isPresent_of_node? hpn, hloc, nofun⟩⟩
  rw [splice, run_read_bind, hlocation, run_bind_ok (run_ofExcept_ok _ _)]
  change (replaceChild top literal).run middle = _
  rw [run_replaceChild, hl.checkReplacement_eq_ok_iff.2 hr]

/-- The tree of the new node stays as it is. -/
theorem spans_replaced (hl : middle.Linked)
    (hr : middle.Replaceable top literal parent location) :
    (middle.replaced top literal parent location).spans literal = middle.spans literal := by
  obtain ⟨lnode, hln, -⟩ := hr.parentless
  rw [Arena.spans, Arena.spans]
  refine congrArg _ (hl.tree_congr (hl.replaced hr) rfl hln fun x xnode hx hu => ?_)
  have hxp : x ≠ parent := by
    rintro rfl
    exact (hr.parent_not_under hl hu).2 rfl
  refine ⟨_, by rw [node?_replaced, hx, Option.map_some], ?_, ?_⟩
  · rw [if_neg hxp]
  · rfl

/-- A literal put in the place of its parentheses is a tree with one node replaced. -/
private theorem spliced_replaced (he : arena.Extends middle)
    (hr : middle.Replaceable top literal parent location)
    (hfresh : ∀ {x xnode}, arena.node? x = some xnode → x ≠ literal) :
    Spliced arena (middle.replaced top literal parent location) top literal where
  linked := he.linked.replaced hr
  names := he.names
  size := by
    rw [size_replaced]
    exact he.size
  root := by
    obtain ⟨-, -, -, htr, -⟩ := hr.attached
    rw [root_replaced, NodeId.replace, if_neg, he.root]
    rw [← he.root]
    exact Ne.symm htr
  others := by
    obtain ⟨tnode, pnode, htn, -, -, -, hpn, hget⟩ := hr.attached
    intro x xnode hx hxt
    rw [node?_replaced, he.kept hx, Option.map_some, if_neg (hfresh hx), if_neg hxt,
      if_neg (hfresh hx), if_neg hxt]
    by_cases hxp : x = parent
    · subst hxp
      cases Option.some.inj (hpn.symm.trans (he.kept hx))
      rw [if_pos rfl, NodeKind.set_eq_map hget]
      · rfl
      · intro other hother
        exact (he.linked.location_unique hpn hpn (isPresent_of_node? htn) hother hget).2
    · rw [if_neg hxp, map_replace_eq]
      exact not_mem_occupants_of_ne he.linked hr.attached.parent?_eq (he.kept hx) hxp
  vacated := by
    intro tnode hn
    have htp : top ≠ parent := (hr.parent_not_under he.linked .self).1.symm
    rw [node?_replaced, he.kept hn, Option.map_some, if_neg htp, if_neg (hfresh hn), if_pos rfl,
      if_neg (hfresh hn), if_pos rfl]
  place := by
    intro tnode hn
    obtain ⟨lnode, hln, -⟩ := hr.parentless
    obtain ⟨tnode', -, htn, -, rfl, hloc, -, -⟩ := hr.attached
    cases Option.some.inj (htn.symm.trans (he.kept hn))
    refine ⟨_, by rw [node?_replaced, hln, Option.map_some], ?_, ?_⟩
    · exact if_pos rfl
    · rw [hloc]
      exact if_pos rfl

end Replaced

/-- A copy takes the slot of an attached node. -/
theorem splice_child (hl : arena.Linked) (hn : arena.node? top = some node)
    (hp : node.parent.isPresent = true) (he : arena.Extends middle)
    (hc : Copied base arena middle inner literal) :
    ∃ arena', (splice top literal).run middle = .ok () arena' ∧ Spliced arena arena' top literal ∧
      arena'.spans literal = middle.spans literal := by
  obtain ⟨location, hr⟩ := exists_replaceable hl hn hp he hc
  refine ⟨_, run_splice_of_replaceable he.linked hr, spliced_replaced he hr ?_,
    spans_replaced he.linked hr⟩
  rintro x xnode hx rfl
  have := index_lt_of_node? hx
  have := hc.fresh
  omega

/-- A copy takes the place of a node that is the root or attached. -/
theorem run_splice (hl : arena.Linked) (hn : arena.node? top = some node)
    (hplace : top = arena.root ∨ node.parent.isPresent = true) (he : arena.Extends middle)
    (hc : Copied base arena middle inner literal) :
    ∃ arena', (splice top literal).run middle = .ok () arena' ∧ Spliced arena arena' top literal ∧
      arena'.spans literal = middle.spans literal := by
  rcases hplace with hroot | hp
  · exact splice_root hl hn hroot he hc
  · exact splice_child hl hn hp he hc

/-! ## One node after its children -/

namespace WalkedAll

variable {move : NodeId → NodeId}

private theorem node?_top (h : WalkedAll arena arena' (node.kind.children.map Prod.snd) move)
    (hl : arena.Linked) (hn : arena.node? top = some node) :
    arena'.node? top = some { node with kind := node.kind.map id move } :=
  h.outside hn fun _ hc => hl.not_under_parent (hl.parent?_of_mem_children hn hc)

private theorem node?_outside (h : WalkedAll arena arena' (node.kind.children.map Prod.snd) move)
    (hl : arena.Linked) (hn : arena.node? top = some node) {xnode : Node}
    (hx : arena.node? x = some xnode) (hu : ¬ arena.Under top x) :
    arena'.node? x = some xnode := by
  have hparent {c : NodeId} (hc : c ∈ node.kind.children.map Prod.snd) :=
    hl.parent?_of_mem_children hn hc
  have hxt : x ≠ top := by
    rintro rfl
    exact hu .self
  have hkind : xnode.kind.map id move = xnode.kind := by
    conv_rhs => rw [← xnode.kind.map_id]
    refine NodeKind.map_congr fun e he => h.fixed fun hm => ?_
    exact not_mem_occupants_of_ne hl (hparent hm) hx hxt he
  rw [h.outside hx fun c hc hcx => hu (.trans (.step (hparent hc) .self) hcx), hkind]

/-- An empty slot stays empty in a walk through the children. -/
theorem move_absent (h : WalkedAll arena arena' (node.kind.children.map Prod.snd) move)
    (hl : arena.Linked) (hn : arena.node? top = some node) : move .absent = .absent := by
  refine h.fixed fun hm => ?_
  obtain ⟨child, hchild, -⟩ := parent?_eq_some.1 (hl.parent?_of_mem_children hn hm)
  simp at hchild

private theorem spans_occupant (h : WalkedAll arena arena' (node.kind.children.map Prod.snd) move)
    (hl : arena.Linked) (hn : arena.node? top = some node) {c : NodeId}
    (hc : c ∈ node.kind.occupants) : arena'.spans (move c) = (arena.spans c).collapse := by
  rcases hl.occupant_cases hn hc with rfl | ⟨l, child, hm, -⟩
  · rw [h.move_absent hl hn, spans_absent, spans_absent, Tree.collapse_absent]
  · exact h.spans (List.mem_map_of_mem hm)

/-- After the walk over its children, a node has the collapsed trees of its children below it. -/
theorem spans_top (h : WalkedAll arena arena' (node.kind.children.map Prod.snd) move)
    (hl : arena.Linked) (hn : arena.node? top = some node) :
    arena'.spans top =
      .node node.span (node.kind.map arena.names.lookup fun c => (arena.spans c).collapse) := by
  rw [h.linked.spans_eq (h.node?_top hl hn), NodeKind.map_map, h.names]
  exact congrArg _ (NodeKind.map_congr fun c hc => h.spans_occupant hl hn hc)

private theorem collapse_spans (hl : arena.Linked) (hn : arena.node? top = some node) :
    (arena.spans top).collapse = Tree.collapseNode node.span
      (node.kind.map arena.names.lookup fun c => (arena.spans c).collapse) := by
  rw [hl.spans_eq hn, Tree.collapse_node, NodeKind.map_map]
  rfl

/-- A node that is left alone after the walk over its children stays in its place. -/
theorem stay (h : WalkedAll arena arena' (node.kind.children.map Prod.snd) move)
    (hl : arena.Linked) (hn : arena.node? top = some node)
    (hspans : arena'.spans top = (arena.spans top).collapse) : Walked arena arena' top top where
  linked := h.linked
  names := h.names
  size := h.size
  root := by
    rw [h.root, NodeId.replace]
    split
    next hr => exact hr
    next => rfl
  outside := by
    intro x xnode hx hu
    have hself : NodeId.replace top top = id := by
      funext y
      rw [NodeId.replace, id]
      split
      next hy => exact hy.symm
      next => rfl
    rw [h.node?_outside hl hn hx hu, hself, NodeKind.map_id]
  fresh := .inl rfl
  place := by
    intro node' hn'
    cases Option.some.inj (hn.symm.trans hn')
    exact ⟨_, h.node?_top hl hn, rfl, rfl⟩
  spans := hspans

/-- A node that is replaced after the walk over its children leaves its place to another one. -/
theorem spliced (h : WalkedAll arena middle (node.kind.children.map Prod.snd) move)
    (hl : arena.Linked) (hn : arena.node? top = some node) (hs : Spliced middle arena' top literal)
    (hfresh : middle.size ≤ literal.index)
    (hspans : arena'.spans literal = (arena.spans top).collapse) :
    Walked arena arena' top literal where
  linked := hs.linked
  names := hs.names.trans h.names
  size := Nat.le_trans h.size hs.size
  root := by rw [hs.root, h.root]
  outside := by
    intro x xnode hx hu
    refine hs.others (h.node?_outside hl hn hx hu) ?_
    rintro rfl
    exact hu .self
  fresh := .inr (Nat.le_trans h.size hfresh)
  place := by
    intro node' hn'
    cases Option.some.inj (hn.symm.trans hn')
    obtain ⟨lnode, hln, hparent, hlocation⟩ := hs.place (h.node?_top hl hn)
    exact ⟨lnode, hln, hparent, hlocation⟩
  spans := hspans

end WalkedAll

/-! ## The walk -/

/-- The choice of a root gives up no node. -/
theorem grows_setRoot (id : NodeId) : Grows (setRoot id) :=
  fun _ arena h => h.trans_eq (size_after_setRoot id arena).symm

/-- A replacement gives up no node. -/
theorem grows_replaceChild (old new : NodeId) : Grows (replaceChild old new) :=
  fun _ arena h => h.trans_eq (size_after_replaceChild old new arena).symm

private theorem grows_collapse (id : NodeId) : Grows (collapse id) := fun size =>
  keeps_collapse (fun kind span => grows_alloc kind span size)
    (fun old new => grows_replaceChild old new size) (fun id => grows_setRoot id size) id

/-- Replace every parenthesized literal among nodes taken one after the other. -/
def collapseAll (ids : List NodeId) : Edit Nat :=
  visitAll collapse ids

/-- A walk through several nodes gives up no node. -/
theorem grows_collapseAll (ids : List NodeId) : Grows (collapseAll ids) := fun size =>
  keeps_visitAll (fun id => grows_collapse id size) ids

/-- A walk through two lists of nodes is a walk through one and then the other. -/
theorem collapseAll_append (ids rest : List NodeId) :
    collapseAll (ids ++ rest) = (do
      let count ← collapseAll ids
      let more ← collapseAll rest
      return count + more) :=
  visitAll_append collapse ids rest

/-- A walk through a list of one node is a walk through the node. -/
theorem collapseAll_singleton (x : NodeId) : collapseAll [x] = collapse x :=
  visitAll_singleton collapse x

/-- How a walk may end: with the number of parentheses that end in a literal and a node in the
place of the first one, or at parentheses around nothing. -/
def EndsWalked (edit : Edit Nat) (arena : Arena) (top : NodeId) : Prop :=
  Ends edit arena
    (fun count arena' => (arena.spans top).hasHole = false ∧ count = (arena.spans top).redexes ∧
      ∃ new, Walked arena arena' top new)
    (fun violation => violation = .absentNode .absent ∧ (arena.spans top).hasHole = true)

/-- The walks over the children of a node, one after the other. -/
theorem ends_collapseAll_children {cs : List NodeId} (hl : arena.Linked) (hnd : cs.Nodup)
    (hparent : ∀ c ∈ cs, arena.parent? c = some parent)
    (hwalk : ∀ c ∈ cs, ∀ start : Arena, start.Linked → start.tree c = arena.tree c →
      start.parent? c = some parent → EndsWalked (collapseAll (start.postorder c)) start c) :
    Ends (collapseAll (cs.flatMap arena.postorder)) arena
      (fun count arena' => (∀ c ∈ cs, (arena.spans c).hasHole = false) ∧
        count = (cs.map fun c => (arena.spans c).redexes).sum ∧
        ∃ move, WalkedAll arena arena' cs move)
      (fun violation => violation = .absentNode .absent ∧
        ∃ c ∈ cs, (arena.spans c).hasHole = true) := by
  induction cs generalizing arena with
  | nil =>
    refine .pure ⟨by simp, rfl, id, hl, rfl, Nat.le_refl _, rfl, fun _ => rfl, ?_, by simp⟩
    intro x node hn _
    rw [NodeKind.map_id, hn]
  | cons c cs ih =>
    rw [List.nodup_cons] at hnd
    have hc := hparent c (by simp)
    rw [List.flatMap_cons, collapseAll_append]
    refine .bind ((hwalk c (by simp) arena hl rfl hc).imp (fun _ _ h => h) ?_) ?_
      fun count size => .bind (grows_collapseAll _ size) fun more => .pure _
    · rintro v ⟨rfl, hhole⟩
      exact ⟨rfl, c, by simp, hhole⟩
    · rintro count middle ⟨hhole, rfl, new, hw⟩
      have hne {d : NodeId} (hd : d ∈ cs) : c ≠ d := fun he => hnd.1 (he ▸ hd)
      have htree {d : NodeId} (hd : d ∈ cs) : middle.tree d = arena.tree d :=
        hw.tree_sibling hl hc (hparent d (by simp [hd])) (hne hd)
      have hspans {d : NodeId} (hd : d ∈ cs) : middle.spans d = arena.spans d := by
        rw [Arena.spans, Arena.spans, htree hd]
      have hrest := ih hw.linked hnd.2
        (fun d hd => hw.parent?_sibling hl hc (hparent d (by simp [hd])) (hne hd))
        (fun d hd start hs ht => hwalk d (by simp [hd]) start hs (ht.trans (htree hd)))
      rw [← hw.flatMap_postorder hl hc hnd.1 fun d hd => hparent d (by simp [hd])]
      refine .bind (hrest.imp (fun _ _ h => h) ?_) ?_ fun more size => .pure _
      · rintro v ⟨rfl, d, hd, hdh⟩
        exact ⟨rfl, d, by simp [hd], by rwa [hspans hd] at hdh⟩
      · rintro more last ⟨hholes, rfl, move, hs⟩
        refine .pure ⟨?_, ?_, _, hs.cons hl hnd.1 hparent hw⟩
        · intro d hd
          rcases List.mem_cons.1 hd with rfl | hd
          · exact hhole
          · rw [← hspans hd]
            exact hholes d hd
        · rw [List.map_cons, List.sum_cons]
          refine congrArg _ (congrArg List.sum (List.map_congr_left fun d hd => ?_))
          rw [hspans hd]

/-- How the visit of a node may end after the walk over its children has led to `middle`: with the
node or a literal in its place, or at parentheses around nothing. -/
def EndsVisited (arena middle : Arena) (top : NodeId) : Prop :=
  Ends (collapse top) middle
    (fun count arena' => (arena.spans top).isHole = false ∧
      count = (if (arena.spans top).isRedex then 1 else 0) ∧ ∃ new, Walked arena arena' top new)
    (fun violation => violation = .absentNode .absent ∧ (arena.spans top).isHole = true)

section Visit

variable {move : NodeId → NodeId}

/-- A node other than parentheses is left alone. -/
theorem endsVisited_of_tag_ne (h : WalkedAll arena middle (node.kind.children.map Prod.snd) move)
    (hl : arena.Linked) (hn : arena.node? top = some node)
    (htag : node.kind.tag ≠ .parenthesizedExpression) : EndsVisited arena middle top := by
  have hother {α : Type} {kind : NodeKind String α} (hk : kind.tag = node.kind.tag) :
      kind.tag ≠ .parenthesizedExpression := fun he => htag (hk ▸ he)
  have hspans := hl.spans_eq hn
  rw [EndsVisited, collapse]
  refine .read_bind ?_
  rw [h.node?_top hl hn, Option.map_some]
  split
  next expression heq =>
    have hk := congrArg NodeKind.tag (Option.some.inj heq)
    rw [NodeKind.tag_map] at hk
    exact absurd hk htag
  next =>
    refine .pure ⟨?_, ?_, top, h.stay hl hn ?_⟩
    · rw [hspans, Tree.isHole_of_tag_ne (hother (NodeKind.tag_map ..))]
    · rw [hspans, Tree.isRedex_of_tag_ne (hother (NodeKind.tag_map ..))]
      rfl
    · rw [h.spans_top hl hn, WalkedAll.collapse_spans hl hn,
        Tree.collapseNode_of_tag_ne (hother (NodeKind.tag_map ..))]

/-- Parentheses around nothing are refused. -/
theorem endsVisited_hole (h : WalkedAll arena middle (node.kind.children.map Prod.snd) move)
    (hl : arena.Linked) (hn : arena.node? top = some node)
    (hkind : node.kind = .parenthesizedExpression .absent) : EndsVisited arena middle top := by
  rw [EndsVisited, collapse]
  refine .read_bind ?_
  rw [h.node?_top hl hn, Option.map_some, hkind]
  change Ends (Edit.ofExcept (middle.require (move .absent)) >>= _) _ _ _
  refine .of_error (?_ : _ = EStateM.Result.error _ middle) ⟨rfl, ?_⟩
  · rw [h.move_absent hl hn]
    rfl
  · rw [hl.spans_eq hn, hkind]
    change Tree.isHole (.node node.span (.parenthesizedExpression (arena.spans .absent))) = true
    rw [spans_absent]
    rfl

/-- A child that is there is there after the walks under the children, and is a literal then if what
it collapses to is one. -/
private theorem WalkedAll.exists_moved
    (h : WalkedAll arena middle (node.kind.children.map Prod.snd) move) (hl : arena.Linked)
    (hn : arena.node? top = some node) (hmem : inner ∈ node.kind.occupants) {inode : Node}
    (hin : arena.node? inner = some inode) :
    ∃ mnode, middle.node? (move inner) = some mnode ∧
      mnode.tag.isLiteral = (arena.spans inner).collapse.isLiteral := by
  have hmoved := h.spans_occupant hl hn hmem
  cases hm : middle.node? (move inner) with
  | none =>
    have hpresent := congrArg Tree.isPresent hmoved
    rw [Arena.spans, tree_of_node?_eq_none hm, Tree.isPresent_collapse, hl.spans_eq hin] at hpresent
    cases hpresent
  | some mnode =>
    refine ⟨mnode, rfl, ?_⟩
    rw [← hmoved, h.linked.spans_eq hm, Tree.isLiteral, Tree.tag?, NodeKind.tag_map]
    rfl

/-- Parentheses around a literal give their place to a copy of it, and others stay. -/
theorem endsVisited_parentheses
    (h : WalkedAll arena middle (node.kind.children.map Prod.snd) move) (hl : arena.Linked)
    (hn : arena.node? top = some node)
    (hplace : top = arena.root ∨ node.parent.isPresent = true) {inode : Node}
    (hkind : node.kind = .parenthesizedExpression inner) (hin : arena.node? inner = some inode) :
    EndsVisited arena middle top := by
  have hspans := hl.spans_eq hn
  have htop := h.spans_top hl hn
  have hcollapse := WalkedAll.collapse_spans hl hn
  have hmem : inner ∈ node.kind.occupants := by
    rw [hkind]
    exact List.mem_singleton.2 rfl
  have hmoved := h.spans_occupant hl hn hmem
  rw [hkind] at hspans htop hcollapse
  change arena.spans top = .node node.span (.parenthesizedExpression (arena.spans inner)) at hspans
  change middle.spans top =
    .node node.span (.parenthesizedExpression (arena.spans inner).collapse) at htop
  change (arena.spans top).collapse = Tree.collapseNode node.span
    (.parenthesizedExpression (arena.spans inner).collapse) at hcollapse
  have hhole : (arena.spans top).isHole = false := by
    rw [hspans, hl.spans_eq hin]
    rfl
  have hredex : (arena.spans top).isRedex = (arena.spans inner).collapse.isLiteral := by
    rw [hspans, Tree.isLiteral_collapse]
    rfl
  obtain ⟨mnode, hmnode, hliteral⟩ := h.exists_moved hl hn hmem hin
  rw [EndsVisited, collapse]
  refine .read_bind ?_
  rw [h.node?_top hl hn, Option.map_some, hkind]
  change Ends (Edit.ofExcept (middle.require (move inner)) >>= _) _ _ _
  refine .ofExcept_bind (require_eq_ok.2 hmnode) ?_
  rw [hliteral]
  cases hlit : (arena.spans inner).collapse.isLiteral with
  | false =>
    refine .pure ⟨hhole, by rw [hredex, hlit]; rfl, top, h.stay hl hn ?_⟩
    rw [htop, hcollapse, Tree.collapseNode, hlit]
    rfl
  | true =>
    rw [if_pos rfl]
    have hgrows (copy : NodeId) : Grows (splice top copy >>= fun _ => (pure 1 : Edit Nat)) :=
      fun size => .bind (keeps_splice (fun old new => grows_replaceChild old new size)
        (fun id => grows_setRoot id size) top copy) fun _ => .pure _
    refine .bind (ends_copySubtree h.linked hmnode) ?_ hgrows
    rintro copy last ⟨hext, hcopied⟩
    have hcopy : last.spans copy = middle.spans (move inner) := hcopied.spans
    have hplace' : top = middle.root ∨ node.parent.isPresent = true := by rwa [h.root]
    obtain ⟨arena', hrun, hs, hsp⟩ := run_splice h.linked (h.node?_top hl hn) hplace' hext hcopied
    refine .of_ok (by rw [run_bind_ok hrun]; rfl : _ = EStateM.Result.ok _ arena') fun _ => ?_
    refine ⟨hhole, by rw [hredex, hlit]; rfl, copy, h.spliced hl hn hs hcopied.fresh ?_⟩
    rw [hsp, hcopy, hmoved, hcollapse, Tree.collapseNode, hlit]
    rfl

/-- What is done to a node after its children. -/
theorem endsVisited (h : WalkedAll arena middle (node.kind.children.map Prod.snd) move)
    (hl : arena.Linked) (hn : arena.node? top = some node)
    (hplace : top = arena.root ∨ node.parent.isPresent = true) : EndsVisited arena middle top := by
  by_cases htag : node.kind.tag = .parenthesizedExpression
  · obtain ⟨inner, hkind⟩ := NodeKind.exists_of_tag_eq htag
    have hmem : inner ∈ node.kind.occupants := by
      rw [hkind]
      exact List.mem_singleton.2 rfl
    rcases hl.occupant_cases hn hmem with rfl | ⟨_, inode, -, hin, -⟩
    · exact endsVisited_hole h hl hn hkind
    · exact endsVisited_parentheses h hl hn hplace hkind hin
  · exact endsVisited_of_tag_ne h hl hn htag

end Visit

/-- The parentheses to replace under a node are those under its children, and the node itself. -/
theorem redexes_spans (hl : arena.Linked) (hn : arena.node? top = some node) :
    (arena.spans top).redexes =
      ((node.kind.children.map Prod.snd).map fun c => (arena.spans c).redexes).sum +
        if (arena.spans top).isRedex then 1 else 0 := by
  rw [← NodeKind.sum_occupants]
  · rw [hl.spans_eq hn, Tree.redexes_node, NodeKind.occupants_map, List.map_map]
    rfl
  · intro c hc
    have hca : c = .absent := by simpa [Occupant.isPresent, NodeId.isPresent] using hc
    rw [hca, spans_absent, Tree.redexes_absent]

/-- Parentheses around nothing lie under a child, or are the node itself. -/
theorem hasHole_spans (hl : arena.Linked) (hn : arena.node? top = some node) :
    (arena.spans top).hasHole = true ↔ (arena.spans top).isHole = true ∨
      ∃ c ∈ node.kind.children.map Prod.snd, (arena.spans c).hasHole = true := by
  rw [hl.spans_eq hn, Tree.hasHole_node, NodeKind.occupants_map]
  refine or_congr_right ?_
  constructor
  · rintro ⟨_, hc, h⟩
    obtain ⟨c, hm, rfl⟩ := List.mem_map.1 hc
    rcases hl.occupant_cases hn hm with rfl | ⟨l, child, hchild, -⟩
    · rw [spans_absent, Tree.hasHole_absent] at h
      cases h
    · exact ⟨c, List.mem_map_of_mem hchild, h⟩
  · rintro ⟨c, hc, h⟩
    obtain ⟨⟨l, c⟩, hm, rfl⟩ := List.mem_map.1 hc
    exact ⟨_, List.mem_map_of_mem (NodeKind.mem_occupants_of_mem_children hm), h⟩

/-- The walk over the nodes under a node that is the root or attached. -/
theorem endsWalked_collapseAll (hl : arena.Linked) (hn : arena.node? top = some node)
    (hplace : top = arena.root ∨ node.parent.isPresent = true) :
    EndsWalked (collapseAll (arena.postorder top)) arena top := by
  -- the arena changes under way, so the induction is on the tree and not on the node
  obtain ⟨tree, htree⟩ : ∃ tree, arena.tree top = tree := ⟨_, rfl⟩
  induction tree using Tree.byOccupants generalizing arena top node with
  | absent =>
    rw [hl.tree_eq hn] at htree
    cases htree
  | node info kind ih =>
    rw [hl.tree_eq hn] at htree
    cases htree
    have hholes := hasHole_spans hl hn
    rw [EndsWalked, hl.postorder_eq hn, collapseAll_append, collapseAll_singleton]
    refine .bind (.imp (ends_collapseAll_children hl (hl.children_nodup hn)
      (fun c hc => hl.parent?_of_mem_children hn hc) ?_) (fun _ _ h => h) ?_) ?_
      fun count size => .bind (grows_collapse top size) fun more => .pure _
    · intro c hc start hs ht hp
      obtain ⟨cnode, hcn, hcp, hpp⟩ := parent?_eq_some.1 hp
      obtain ⟨⟨l, c⟩, hm, rfl⟩ := List.mem_map.1 hc
      refine ih (arena.tree c) ?_ hs hcn (.inr (hcp ▸ hpp)) ht
      rw [NodeKind.occupants_map]
      exact List.mem_map_of_mem (NodeKind.mem_occupants_of_mem_children hm)
    · rintro v ⟨rfl, hc⟩
      exact ⟨rfl, hholes.2 (.inr hc)⟩
    · rintro count middle ⟨hnone, rfl, move, h⟩
      refine .bind ((endsVisited h hl hn hplace).imp (fun _ _ h => h) ?_) ?_
        fun more size => .pure _
      · rintro v ⟨rfl, htop⟩
        exact ⟨rfl, hholes.2 (.inl htop)⟩
      · rintro more last ⟨htop, rfl, new, hw⟩
        refine .pure ⟨?_, (redexes_spans hl hn).symm, new, hw⟩
        rw [← Bool.not_eq_true, hholes, not_or]
        refine ⟨by rw [htop]; exact Bool.false_ne_true, ?_⟩
        rintro ⟨c, hc, hch⟩
        rw [hnone c hc] at hch
        cases hch

end ParenthesizedLiteral

end JavaFold
