import JavaFold.Proofs.Arena.Growth
import JavaFold.Proofs.Fold.FixedPoint

/-!
# What the rule leaves alone

The rule goes through the nodes under a node, children first, and puts copies in the places of some
of them. `Conserves` compares an arena with the one before: every node that was there is as it was,
except that the nodes replaced so far are detached, and that copies stand wherever these were
children. This covers the nodes that are no longer in the tree, such as the parentheses inside of
parentheses that were replaced. Each node of the walk adds at most itself to the nodes that are
replaced, and the arena on the way is compared with the first one throughout (`Folding`).
-/

namespace JavaFold

namespace Arena

variable {arena : Arena} {id : NodeId} {node : Node}

/-- On the way through the nodes under a node, no node comes before one that lies under it. -/
theorem Linked.postorder_pairwise (hl : arena.Linked) (hn : arena.node? id = some node) :
    (arena.postorder id).Pairwise fun x y => ¬ arena.Under x y := by
  refine hl.byOccupants (motive := fun id =>
    (arena.postorder id).Pairwise fun x y => ¬ arena.Under x y) ?_ ?_ ⟨node, hn⟩
  · rw [postorder_absent]
    exact .nil
  · intro id node hn ih
    have hchild {c : NodeId} (hc : c ∈ node.kind.children.map Prod.snd) :
        arena.parent? c = some id := hl.parent?_of_mem_children hn hc
    have hbelow {c x : NodeId} (hc : c ∈ node.kind.children.map Prod.snd)
        (hx : x ∈ arena.postorder c) : arena.Under c x := by
      obtain ⟨cnode, hcn, -⟩ := parent?_eq_some.1 (hchild hc)
      exact (hl.mem_postorder_iff hcn).1 hx
    rw [hl.postorder_eq hn, List.pairwise_append, List.pairwise_flatMap]
    refine ⟨⟨fun c hc => ih c (hl.mem_occupants_of_parent? (hchild hc) hn), ?_⟩,
      List.pairwise_singleton _ _, ?_⟩
    · refine (hl.children_nodup hn).imp_of_mem fun {c d} hc hd hne x hx y hy hu => ?_
      exact hl.not_under_of_siblings (hchild hc) (hchild hd) hne ((hbelow hc hx).trans hu)
        (hbelow hd hy)
    · intro x hx y hy hu
      obtain ⟨c, hc, hx⟩ := List.mem_flatMap.1 hx
      cases List.mem_singleton.1 hy
      exact hl.not_under_parent (hchild hc) ((hbelow hc hx).trans hu)

/-- A node is come to when all nodes under it have been met, and it has not. -/
theorem Linked.postorder_split (hl : arena.Linked) (hn : arena.node? id = some node) {x : NodeId}
    {done rest : List NodeId} (h : arena.postorder id = done ++ x :: rest) :
    arena.Under id x ∧ x ∉ done ∧ ∀ y, arena.Under x y → y ≠ x → y ∈ done := by
  have horder := hl.postorder_pairwise hn
  rw [h, List.pairwise_append, List.pairwise_cons] at horder
  obtain ⟨-, ⟨hlater, -⟩, hearlier⟩ := horder
  have hall (y : NodeId) : y ∈ done ++ x :: rest ↔ arena.Under id y := by
    rw [← h, hl.mem_postorder_iff hn]
  have hx : arena.Under id x := (hall x).1 (by simp)
  refine ⟨hx, fun hm => hearlier x hm x List.mem_cons_self .self, fun y hy hne => ?_⟩
  rcases List.mem_append.1 ((hall y).2 (hx.trans hy)) with hm | hm
  · exact hm
  · exact absurd hy (hlater y ((List.mem_cons.1 hm).resolve_left hne))

end Arena

/-- Parentheses that do not end in a literal stay, as all other nodes do. -/
theorem Tree.collapse_node_of_not_isRedex {ι : Type} {info : ι} {kind : NodeKind String (Tree ι)}
    (h : isRedex (.node info kind) = false) :
    collapse (.node info kind) = .node info (kind.map id collapse) := by
  rcases collapse_cases info kind with ⟨-, he⟩ | ⟨inner, rfl, ⟨hends, -⟩ | ⟨-, he⟩⟩
  · exact he
  · cases hends.symm.trans h
  · exact he

/-- Parentheses that end in a literal leave what they enclose. -/
theorem Tree.collapse_parenthesized {ι : Type} {info : ι} {inner : Tree ι}
    (h : isRedex (.node info (.parenthesizedExpression inner)) = true) :
    collapse (.node info (.parenthesizedExpression inner)) = inner.collapse := by
  rcases collapse_cases info (.parenthesizedExpression inner) with
    ⟨htag, -⟩ | ⟨inner', hkind, ⟨-, he⟩ | ⟨hends, -⟩⟩
  · exact absurd rfl htag
  · cases hkind
    exact he
  · cases hkind
    cases hends.symm.trans h

namespace ParenthesizedLiteral

open Arena Edit

variable {base arena arena' : Arena} {gone : List NodeId} {move : NodeId → NodeId}
  {top x y literal : NodeId} {node : Node} {count : Nat}

/-- An arena after the nodes of a list have been replaced, compared with the one before. Every node
that was there stands for itself, or for what it was replaced by. -/
structure Conserves (base arena : Arena) (gone : List NodeId) (move : NodeId → NodeId) : Prop where
  /-- The texts are the same. -/
  names : arena.names = base.names
  /-- The root is the same, unless it was replaced. -/
  root : arena.root = move base.root
  /-- A node that was not replaced stands for itself. -/
  fixed : ∀ {x}, x ∉ gone → move x = x
  /-- A node that was replaced stands for a new one. -/
  fresh : ∀ {x}, x ∈ gone → base.size ≤ (move x).index ∧ arena.contains (move x) = true
  /-- What it was replaced by is what is left of its tree without parentheses around literals. -/
  spans : ∀ {x}, x ∈ gone → arena.spans (move x) = (base.spans x).collapse
  /-- A node that was there holds what its children stand for. Apart from that it is as it was, or
  detached if it was replaced. -/
  kept : ∀ {x node}, base.node? x = some node → arena.node? x = some
    { kind := node.kind.map id move
      span := node.span
      parent := if x ∈ gone then .absent else node.parent
      location := if x ∈ gone then none else node.location }
  /-- There are as many new nodes as the trees have that were copied. -/
  size : arena.size = base.size + (gone.map fun x => (base.spans x).collapse.preorder.length).sum

/-- The arena on the way, with what the next step relies on. -/
structure Folding (base arena : Arena) (gone : List NodeId) (move : NodeId → NodeId) : Prop
    extends Conserves base arena gone move where
  /-- The links agree. -/
  linked : arena.Linked
  /-- The nodes that were replaced were there. -/
  there : ∀ {x}, x ∈ gone → ∃ node, base.node? x = some node

theorem Folding.refl (hb : base.Linked) : Folding base base [] id where
  names := rfl
  root := rfl
  fixed _ := rfl
  fresh := nofun
  spans := nofun
  kept hn := by simpa using hn
  size := rfl
  linked := hb
  there := nofun

namespace Folding

theorem move_absent (h : Folding base arena gone move) : move .absent = .absent := by
  refine h.fixed fun hm => ?_
  obtain ⟨node, hn⟩ := h.there hm
  simp at hn

/-- A node that was there lies under no new one. -/
theorem not_under_fresh (h : Folding base arena gone move) (hb : base.Linked)
    (hn : base.node? x = some node) (hy : base.size ≤ y.index) : ¬ arena.Under y x := by
  intro hu
  induction hu generalizing node with
  | self =>
    have := index_lt_of_node? hn
    omega
  | @step x parent hp _ ih =>
    obtain ⟨node', hn', hparent, hpp⟩ := parent?_eq_some.1 hp
    cases Option.some.inj ((h.kept hn).symm.trans hn')
    simp only at hparent
    split at hparent
    next =>
      rw [← hparent] at hpp
      cases hpp
    next =>
      obtain ⟨pnode, hpn⟩ := hb.parent_contained (parent?_eq_some.2 ⟨node, hn, hparent, hpp⟩)
      exact ih hpn

/-- Once the nodes under a node are done, its tree is the one before without the parentheses around
literals. -/
theorem spans_eq (h : Folding base arena gone move) (hb : base.Linked)
    (hn : base.node? x = some node)
    (hdone : ∀ y, base.Under x y → (y ∈ gone ↔ (base.spans y).isRedex = true)) :
    arena.spans (move x) = (base.spans x).collapse := by
  revert hdone
  refine hb.byOccupants (motive := fun x =>
    (∀ y, base.Under x y → (y ∈ gone ↔ (base.spans y).isRedex = true)) →
      arena.spans (move x) = (base.spans x).collapse) ?_ ?_ ⟨node, hn⟩
  · intro _
    rw [h.move_absent, spans_absent, spans_absent, Tree.collapse_absent]
  · intro x node hn ih hdone
    by_cases hx : x ∈ gone
    · exact h.spans hx
    · have hredex : (base.spans x).isRedex = false := by
        rwa [hdone x .self, Bool.not_eq_true] at hx
      rw [hb.spans_eq hn] at hredex ⊢
      rw [h.fixed hx, h.linked.spans_eq (h.kept hn), Tree.collapse_node_of_not_isRedex hredex,
        h.names, NodeKind.map_map, NodeKind.map_map]
      refine congrArg _ (NodeKind.map_congr fun c hc => ?_)
      by_cases hca : c = .absent
      · subst hca
        rw [Function.comp_apply, Function.comp_apply, h.move_absent, spans_absent, spans_absent,
          Tree.collapse_absent]
      · exact ih c hc fun y hy => hdone y ((hb.under_occupant hn hc hca).trans hy)

private theorem node?_of_not_mem (h : Folding base arena gone move) (hn : base.node? x = some node)
    (hx : x ∉ gone) : arena.node? x = some { node with kind := node.kind.map id move } := by
  rw [h.kept hn, if_neg hx, if_neg hx]

/-- The tree of a new node is left alone when another node that was there is replaced. -/
theorem spans_spliced (h : Folding base arena gone move) (hb : base.Linked)
    (hn : base.node? x = some node) (hs : Spliced arena arena' x literal)
    (hy : base.size ≤ y.index) (hc : arena.contains y = true) :
    arena'.spans y = arena.spans y := by
  obtain ⟨ynode, hyn⟩ := contains_iff.1 hc
  have hnot := h.not_under_fresh hb hn hy
  rw [Arena.spans, Arena.spans]
  refine congrArg _ (h.linked.tree_congr hs.linked hs.names hyn fun z znode hz hu => ?_)
  have hzx : z ≠ x := by
    rintro rfl
    exact hnot hu
  refine ⟨_, hs.others hz hzx, map_replace_eq fun hm => ?_, rfl⟩
  have hxa : x ≠ .absent := NodeId.isPresent_iff.1 (isPresent_of_node? hn)
  exact hnot (hu.trans (h.linked.under_occupant hz hm hxa))

private theorem size_le (h : Folding base arena gone move) : base.size ≤ arena.size := by
  rw [h.size]
  exact Nat.le_add_right ..

/-- What took the place of an earlier node is not the node that is replaced now, as it is new. -/
theorem move_ne (h : Folding base arena gone move) (hn : base.node? x = some node) (hy : y ∈ gone) :
    move y ≠ x := by
  intro he
  have hindex := (h.fresh hy).1
  have hlt := index_lt_of_node? hn
  rw [he] at hindex
  omega

/-- The node that is replaced is led to what takes its place. -/
theorem replace_move_self (h : Folding base arena gone move) (hx : x ∉ gone) :
    NodeId.replace x literal (move x) = literal := by
  rw [h.fixed hx, NodeId.replace, if_pos rfl]

/-- What takes the place of the nodes that are gone is new and there. -/
theorem fresh_spliced (h : Folding base arena gone move) (hn : base.node? x = some node)
    (hx : x ∉ gone) (hs : Spliced arena arena' x literal) (hfresh : arena.size ≤ literal.index)
    (hy : y ∈ gone ++ [x]) : base.size ≤ (NodeId.replace x literal (move y)).index ∧
      arena'.contains (NodeId.replace x literal (move y)) = true := by
  rcases List.mem_append.1 hy with hy | hy
  · obtain ⟨hindex, hc⟩ := h.fresh hy
    obtain ⟨ynode, hyn⟩ := contains_iff.1 hc
    have hne := h.move_ne hn hy
    rw [NodeId.replace, if_neg hne]
    exact ⟨hindex, contains_iff.2 ⟨_, hs.others hyn hne⟩⟩
  · cases List.mem_singleton.1 hy
    obtain ⟨lnode, hln, -⟩ := hs.place (h.node?_of_not_mem hn hx)
    rw [h.replace_move_self hx]
    exact ⟨h.size_le.trans hfresh, contains_iff.2 ⟨lnode, hln⟩⟩

/-- A node that was there loses its links when it is replaced, and else holds the new children. -/
theorem kept_spliced (h : Folding base arena gone move) (hn : base.node? x = some node)
    (hx : x ∉ gone) (hs : Spliced arena arena' x literal) {ynode : Node}
    (hyn : base.node? y = some ynode) :
    arena'.node? y = some { ynode with
      kind := ynode.kind.map id (NodeId.replace x literal ∘ move)
      parent := if y ∈ gone ++ [x] then .absent else ynode.parent
      location := if y ∈ gone ++ [x] then none else ynode.location } := by
  by_cases hyx : y = x
  · subst hyx
    cases Option.some.inj (hn.symm.trans hyn)
    have hxn := h.node?_of_not_mem hn hx
    have hmem : y ∈ gone ++ [y] := by simp
    have hnot : y ∉ (node.kind.map id move).occupants := fun hm =>
      h.linked.not_under_parent (h.linked.parent?_of_mem_occupants hxn hm
        (NodeId.isPresent_iff.1 (isPresent_of_node? hn))) .self
    rw [hs.vacated hxn, if_pos hmem, if_pos hmem, ← map_replace_eq hnot, NodeKind.map_map]
    rfl
  · have hmem : y ∈ gone ++ [x] ↔ y ∈ gone := by simp [hyx]
    rw [hs.others (h.kept hyn) hyx, NodeKind.map_map]
    simp only [hmem]
    rfl

/-- Replacing one more node by a copy of what is left of it. -/
theorem spliced (h : Folding base arena gone move) (hb : base.Linked)
    (hn : base.node? x = some node) (hx : x ∉ gone) (hs : Spliced arena arena' x literal)
    (hfresh : arena.size ≤ literal.index)
    (hspans : arena'.spans literal = (base.spans x).collapse)
    (hsize : arena'.size = arena.size + (base.spans x).collapse.preorder.length) :
    Folding base arena' (gone ++ [x]) (NodeId.replace x literal ∘ move) where
  names := hs.names.trans h.names
  linked := hs.linked
  root := by rw [hs.root, h.root, Function.comp_apply]
  fixed := by
    intro y hy
    rw [List.mem_append, List.mem_singleton, not_or] at hy
    rw [Function.comp_apply, h.fixed hy.1, NodeId.replace, if_neg hy.2]
  fresh hy := h.fresh_spliced hn hx hs hfresh hy
  spans := by
    intro y hy
    rw [Function.comp_apply]
    rcases List.mem_append.1 hy with hy | hy
    · obtain ⟨hindex, hc⟩ := h.fresh hy
      rw [NodeId.replace, if_neg (h.move_ne hn hy), h.spans_spliced hb hn hs hindex hc, h.spans hy]
    · cases List.mem_singleton.1 hy
      rw [h.replace_move_self hx, hspans]
  kept hyn := h.kept_spliced hn hx hs hyn
  size := by
    rw [hsize, h.size, List.map_append, List.sum_append, Nat.add_assoc]
    simp
  there := by
    intro y hy
    rcases List.mem_append.1 hy with hy | hy
    · exact h.there hy
    · cases List.mem_singleton.1 hy
      exact ⟨node, hn⟩

/-- A copy of what is left of a node takes its place. -/
theorem splice_copy {middle : Arena} {inner : NodeId} {inode : Node}
    (h : Folding base arena gone move) (hb : base.Linked) (hn : base.node? x = some node)
    (hx : x ∉ gone) (hplace : x = base.root ∨ node.parent.isPresent = true)
    (hinner : arena.node? inner = some inode)
    (hspans : arena.spans inner = (base.spans x).collapse)
    (hcopy : (copySubtree inner).run arena = .ok literal middle)
    (hsplice : (splice x literal).run middle = .ok () arena')
    (hs : arena'.size ≤ NodeId.maxIndex) :
    Folding base arena' (gone ++ [x]) (NodeId.replace x literal ∘ move) := by
  obtain ⟨-, hsize⟩ := of_run_splice hsplice
  have hends := ends_copySubtree (E := fun _ => False) h.linked hinner
  rw [Ends, hcopy] at hends
  obtain ⟨hext, hcopied⟩ := hends (hsize ▸ hs)
  have hplace' : x = arena.root ∨ node.parent.isPresent = true := by
    refine hplace.imp_left ?_
    rintro rfl
    rw [h.root, h.fixed hx]
  obtain ⟨last, hrun, hspliced, hsame⟩ :=
    run_splice h.linked (h.node?_of_not_mem hn hx) hplace' hext hcopied
  cases hsplice.symm.trans hrun
  refine h.spliced hb hn hx hspliced hcopied.fresh ?_ ?_
  · rw [hsame, hcopied.spans, hspans]
  · rw [hsize, size_copySubtree h.linked hcopy, hspans]

/-- What parentheses enclose, once it is done: its tree is the one before without the parentheses
around literals, and it is a literal exactly if the parentheses end in one. -/
theorem enclosed {inner : NodeId} {inode : Node} (h : Folding base arena gone move)
    (hb : base.Linked) (hn : base.node? x = some node)
    (hspansx : base.spans x = .node node.span (.parenthesizedExpression (base.spans inner)))
    (hmem : inner ∈ node.kind.occupants)
    (hdone : ∀ y, base.Under x y → y ≠ x → (y ∈ gone ↔ (base.spans y).isRedex = true))
    (hinode : arena.node? (move inner) = some inode) :
    arena.spans (move inner) = (base.spans inner).collapse ∧
      inode.tag.isLiteral = (base.spans x).isRedex := by
  have hinner : inner ≠ .absent := by
    rintro rfl
    rw [h.move_absent] at hinode
    simp at hinode
  have hparent := hb.parent?_of_mem_occupants hn hmem hinner
  obtain ⟨bnode, hbn, -⟩ := parent?_eq_some.1 hparent
  have hspans : arena.spans (move inner) = (base.spans inner).collapse := by
    refine h.spans_eq hb hbn fun y hy => hdone y (.trans (.step hparent .self) hy) ?_
    rintro rfl
    exact hb.not_under_parent hparent hy
  refine ⟨hspans, ?_⟩
  rw [hspansx, Tree.isRedex, ← Tree.isLiteral_collapse, ← hspans, h.linked.spans_eq hinode,
    Tree.isLiteral, Tree.tag?, NodeKind.tag_map]
  rfl

/-- What is done to a node after the nodes under it: parentheses that end in a literal are replaced,
and other nodes are left alone. -/
theorem collapse (h : Folding base arena gone move) (hb : base.Linked)
    (hn : base.node? x = some node) (hx : x ∉ gone)
    (hplace : x = base.root ∨ node.parent.isPresent = true)
    (hdone : ∀ y, base.Under x y → y ≠ x → (y ∈ gone ↔ (base.spans y).isRedex = true))
    (hrun : (collapse x).run arena = .ok count arena') (hs : arena'.size ≤ NodeId.maxIndex) :
    (base.spans x).isRedex = true ∧ count = 1 ∧
      (∃ literal, Folding base arena' (gone ++ [x]) (NodeId.replace x literal ∘ move)) ∨
    (base.spans x).isRedex = false ∧ count = 0 ∧ arena' = arena := by
  have hxn := h.node?_of_not_mem hn hx
  rw [ParenthesizedLiteral.collapse, run_read_bind, hxn, Option.map_some] at hrun
  by_cases htag : node.kind.tag = .parenthesizedExpression
  · obtain ⟨inner, hkind⟩ := NodeKind.exists_of_tag_eq htag
    have hmap : node.kind.map id move = .parenthesizedExpression (move inner) := by
      rw [hkind]
      rfl
    have hmem : inner ∈ node.kind.occupants := by
      rw [hkind]
      exact List.mem_singleton.2 rfl
    have hspansx : base.spans x =
        .node node.span (.parenthesizedExpression (base.spans inner)) := by
      rw [hb.spans_eq hn, hkind]
      rfl
    simp only [hmap, run_ofExcept_bind] at hrun
    split at hrun
    next inode hrequire =>
      have hinode := require_eq_ok.1 hrequire
      obtain ⟨hspans, hliteral⟩ := h.enclosed hb hn hspansx hmem hdone hinode
      split at hrun
      next hlit =>
        have hredex : (base.spans x).isRedex = true := hliteral ▸ hlit
        obtain ⟨literal, middle, hcopy, hrun⟩ := run_bind_eq_ok.1 hrun
        obtain ⟨_, last, hsplice, hrun⟩ := run_bind_eq_ok.1 hrun
        cases hrun
        refine .inl ⟨hredex, rfl, literal, h.splice_copy hb hn hx hplace hinode ?_ hcopy hsplice hs⟩
        rw [hspansx] at hredex ⊢
        rw [hspans, Tree.collapse_parenthesized hredex]
      next hlit =>
        cases hrun
        exact .inr ⟨by rwa [hliteral, Bool.not_eq_true] at hlit, rfl, rfl⟩
    next => cases hrun
  · split at hrun
    next expression heq =>
      have hk := congrArg NodeKind.tag (Option.some.inj heq)
      rw [NodeKind.tag_map] at hk
      exact absurd hk htag
    next =>
      cases hrun
      refine .inr ⟨?_, rfl, rfl⟩
      rw [hb.spans_eq hn, Tree.isRedex_of_tag_ne (by rwa [NodeKind.tag_map])]

end Folding

/-- The parentheses under a node that end in a literal, inner ones first. -/
def collapsed (arena : Arena) (top : NodeId) : List NodeId :=
  (arena.postorder top).filter fun x => (arena.spans x).isRedex

/-- The walk over what is left of the nodes under a node. -/
theorem Folding.collapseAll {tnode : Node} {done rest : List NodeId} (hb : base.Linked)
    (hn : base.node? top = some tnode)
    (hplace : top = base.root ∨ tnode.parent.isPresent = true)
    (hsplit : base.postorder top = done ++ rest)
    (h : Folding base arena (done.filter fun x => (base.spans x).isRedex) move)
    (hrun : (collapseAll rest).run arena = .ok count arena')
    (hs : arena'.size ≤ NodeId.maxIndex) :
    count = (rest.filter fun x => (base.spans x).isRedex).length ∧
      ∃ move', Folding base arena' (collapsed base top) move' := by
  -- on the nodes still to visit; those in `done` that were parentheses are gone by now
  induction rest generalizing done arena move count with
  | nil =>
    cases hrun
    rw [List.append_nil] at hsplit
    exact ⟨rfl, move, by rwa [collapsed, hsplit]⟩
  | cons x rest ih =>
    rw [← List.singleton_append, collapseAll_append, collapseAll_singleton] at hrun
    obtain ⟨first, middle, hfirst, hrun⟩ := run_bind_eq_ok.1 hrun
    obtain ⟨more, last, hrest, hrun⟩ := run_bind_eq_ok.1 hrun
    cases hrun
    have hgrown : middle.size ≤ arena'.size :=
      after_of_run_ok hrest ▸ grows_collapseAll rest middle.size middle (Nat.le_refl _)
    obtain ⟨hux, hx, hbelow⟩ := hb.postorder_split hn hsplit
    obtain ⟨⟨node, hxn⟩, -⟩ := hb.spans_mem_subtrees hn hux
    have hdone : ∀ y, base.Under x y → y ≠ x →
        (y ∈ done.filter (fun x => (base.spans x).isRedex) ↔ (base.spans y).isRedex = true) := by
      intro y hy hne
      rw [List.mem_filter, and_iff_right (hbelow y hy hne)]
    have hplacex : x = base.root ∨ node.parent.isPresent = true := by
      cases hux with
      | self =>
        cases Option.some.inj (hn.symm.trans hxn)
        exact hplace
      | step hp _ =>
        obtain ⟨node', hxn', rfl, hpp⟩ := parent?_eq_some.1 hp
        cases Option.some.inj (hxn.symm.trans hxn')
        exact .inr hpp
    have hsplit' : base.postorder top = (done ++ [x]) ++ rest := by
      rw [hsplit, List.append_assoc, List.singleton_append]
    have hnext := h.collapse hb hxn (fun hm => hx (List.mem_filter.1 hm).1) hplacex hdone hfirst
      (hgrown.trans hs)
    rcases hnext with ⟨hredex, rfl, literal, hfold⟩ | ⟨hredex, rfl, rfl⟩
    · obtain ⟨hcount, hmove⟩ := ih hsplit' (by simpa [hredex] using hfold) hrest
      refine ⟨?_, hmove⟩
      rw [hcount, List.filter_cons, if_pos hredex, List.length_cons, Nat.add_comm]
    · obtain ⟨hcount, hmove⟩ := ih hsplit' (by simpa [hredex] using h) hrest
      refine ⟨?_, hmove⟩
      rw [hcount, List.filter_cons, if_neg (by simp [hredex]), Nat.zero_add]

/-- In every arena that operations lead to, a rewriting that comes to its end leaves every node that
was there as it was, apart from the parentheses that it replaces and the slots that these were in,
and adds the nodes of the copies and no others. -/
theorem rewrite_conserves (h : arena.Reachable)
    (hrun : (rewrite top).run arena = .ok count arena') (hs : arena'.size ≤ NodeId.maxIndex) :
    count = (collapsed arena top).length ∧
      ∃ move, Conserves arena arena' (collapsed arena top) move := by
  have hgrown : arena.size ≤ arena'.size :=
    after_of_run_ok hrun ▸ grows_rewrite top arena.size arena (Nat.le_refl _)
  have hl := h.linkedIfSmall (hgrown.trans hs)
  obtain ⟨node, hn, hplace⟩ := placed_of_run_rewrite hrun
  rw [run_rewrite hl hn hplace] at hrun
  have hall : arena.postorder top = [] ++ arena.postorder top := rfl
  obtain ⟨hcount, move, hfold⟩ := Folding.collapseAll hl hn hplace hall (.refl hl) hrun hs
  exact ⟨hcount, move, hfold.toConserves⟩

/-- Two pairs of parentheses around a literal that is returned: both are replaced, each by a copy of
one node. -/
theorem rewrite_conserves_returned :
    ∃ arena arena' move, arena = [Operation.alloc .nullLiteral ⟨9, 13⟩,
        .alloc (.parenthesizedExpression ⟨0⟩) ⟨8, 14⟩,
        .alloc (.parenthesizedExpression ⟨1⟩) ⟨7, 15⟩,
        .alloc (.returnStatement ⟨2⟩) ⟨0, 16⟩, .setRoot ⟨3⟩].foldl Operation.perform .empty ∧
      (rewrite ⟨3⟩).run arena = .ok 2 arena' ∧ arena'.size = 6 ∧ arena'.root = ⟨3⟩ ∧
      Conserves arena arena' [⟨1⟩, ⟨2⟩] move := by
  obtain ⟨arena, ha⟩ : ∃ arena, arena = [Operation.alloc .nullLiteral ⟨9, 13⟩,
    .alloc (.parenthesizedExpression ⟨0⟩) ⟨8, 14⟩, .alloc (.parenthesizedExpression ⟨1⟩) ⟨7, 15⟩,
    .alloc (.returnStatement ⟨2⟩) ⟨0, 16⟩, .setRoot ⟨3⟩].foldl Operation.perform .empty := ⟨_, rfl⟩
  have hreachable : arena.Reachable := ha ▸ Arena.Reachable.empty.performAll _
  have hcollapsed : collapsed arena ⟨3⟩ = [⟨1⟩, ⟨2⟩] := by
    rw [ha]
    decide +kernel
  have houtcome : (match (rewrite ⟨3⟩).run arena with
      | .ok count last => count == 2 && last.size == 6 && last.root == ⟨3⟩
      | .error .. => false) = true := by
    rw [ha]
    decide +kernel
  cases hrun : (rewrite ⟨3⟩).run arena with
  | error violation last => simp [hrun] at houtcome
  | ok count last =>
    obtain ⟨⟨rfl, hsize⟩, hroot⟩ : (count = 2 ∧ last.size = 6) ∧ last.root = ⟨3⟩ := by
      simpa [hrun] using houtcome
    obtain ⟨-, move, hconserves⟩ := rewrite_conserves hreachable hrun (by rw [hsize]; decide)
    exact ⟨arena, last, move, ha, hrun, hsize, hroot, hcollapsed ▸ hconserves⟩

end ParenthesizedLiteral

end JavaFold
