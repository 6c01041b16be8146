import JavaFold.Proofs.Fold.FixedPoint
import JavaFold.Proofs.Tree.Match
import Mathlib.Algebra.BigOperators.Ring.List
import Mathlib.Algebra.Ring.Nat

/-!
# The order of folding

An application of the rule to a part of a tree takes work from the whole tree: what the whole tree
collapses to stays the same, and as many parentheses around literals are gone as rewrites were made.
So it makes no difference which parts are folded before the whole, and in which order.
-/

namespace JavaFold.ParenthesizedLiteral

open Arena Edit

variable {arena arena' : Arena} {top site x new : NodeId} {node : Node}

/-! ## Folding a part -/

/-- What is left to do in a tree after some of it was done. -/
structure Remains (before after : Tree Span) (done : Nat) : Prop where
  /-- The tree collapses to the same one. -/
  collapse : after.collapse = before.collapse
  /-- The rewrites that were made are not to be made again. -/
  redexes : before.redexes = after.redexes + done
  /-- No parentheses were left around nothing. -/
  hasHole : before.hasHole = false → after.hasHole = false

/-- What is left to do in a node is what is left to do in its children. -/
theorem Remains.of_children {kind : ArenaKind} {span : Span} {text : Name → String}
    {before after : NodeId → Tree Span} {times : NodeId → Nat} {done : Nat}
    (h : ∀ c ∈ kind.occupants, Remains (before c) (after c) (times c * done)) :
    Remains (.node span (kind.map text before)) (.node span (kind.map text after))
      ((kind.occupants.map times).sum * done) := by
  have hcollapse : ∀ c ∈ kind.occupants, (after c).collapse = (before c).collapse :=
    fun c hc => (h c hc).collapse
  refine ⟨Tree.collapse_node_congr hcollapse, ?_, fun hhole => ?_⟩
  · have hsum : (kind.occupants.map fun c => (before c).redexes).sum =
        (kind.occupants.map fun c => (after c).redexes).sum +
          (kind.occupants.map times).sum * done := by
      rw [List.map_congr_left fun c hc => (h c hc).redexes, List.sum_map_add,
        List.sum_map_mul_right]
    simp only [Tree.redexes_node, Tree.isRedex_node_congr hcollapse, NodeKind.occupants_map,
      List.map_map, Function.comp_def]
    omega
  · rw [← Bool.not_eq_true, Tree.hasHole_node, not_or, NodeKind.occupants_map] at hhole ⊢
    rw [Tree.isHole_node_congr hcollapse]
    refine ⟨hhole.1, ?_⟩
    rintro ⟨_, hm, hhole'⟩
    obtain ⟨c, hc, rfl⟩ := List.mem_map.1 hm
    refine hhole.2 ⟨_, List.mem_map_of_mem hc, ?_⟩
    by_contra hne
    rw [(h c hc).hasHole (Bool.eq_false_iff.2 hne)] at hhole'
    cases hhole'

/-- After the walk under a node, what is left to do under a node that is not below it is what was to
be done there less what was done, once for every time the first node is met on the way down. -/
theorem Walked.remains (h : Walked arena arena' site new) (hl : arena.Linked)
    (hsite : ∃ snode, arena.node? site = some snode) (hn : ∃ node, arena.node? x = some node)
    (hout : x = site ∨ ¬ arena.Under site x) :
    Remains (arena.spans x) (arena'.spans (NodeId.replace site new x))
      ((arena.descendants x).count site * (arena.spans site).redexes) := by
  obtain ⟨snode, hsn⟩ := hsite
  have hne : site ≠ .absent := NodeId.isPresent_iff.1 (isPresent_of_node? hsn)
  revert hout
  -- from the children up: outside the site a node keeps its slots, so its tree follows theirs
  refine hl.byOccupants (motive := fun x => x = site ∨ ¬ arena.Under site x →
    Remains (arena.spans x) (arena'.spans (NodeId.replace site new x))
      ((arena.descendants x).count site * (arena.spans site).redexes)) ?_ ?_ hn
  · intro _
    rw [NodeId.replace, if_neg (Ne.symm hne), spans_absent, spans_absent, Linked.descendants_absent]
    exact ⟨rfl, by simp, id⟩
  · intro x node hn ih hout
    by_cases hx : x = site
    · subst hx
      have hone : (arena.descendants x).count x = 1 :=
        List.count_eq_one_of_mem (hl.descendants_nodup hn) ((hl.mem_descendants_iff hn).2 .self)
      rw [NodeId.replace, if_pos rfl, h.spans, hone, Nat.one_mul]
      exact ⟨Tree.collapse_collapse _, by rw [Tree.redexes_collapse, Nat.zero_add],
        Tree.hasHole_collapse⟩
    · have hnot := hout.resolve_left hx
      have hspans : arena'.spans x = .node node.span (node.kind.map arena.names.lookup
          fun c => arena'.spans (NodeId.replace site new c)) := by
        rw [h.linked.spans_eq (h.outside hn hnot), h.names, NodeKind.map_map]
        rfl
      have hcount : (arena.descendants x).count site =
          (node.kind.occupants.map fun c => (arena.descendants c).count site).sum := by
        rw [hl.descendants_eq hn, List.count_cons_of_ne (Ne.symm (Ne.symm hx)), List.count_flatMap]
        rfl
      rw [NodeId.replace, if_neg hx, hl.spans_eq hn, hspans, hcount]
      refine .of_children fun c hc => ih c hc ?_
      by_cases hcs : c = site
      · exact .inl hcs
      · refine .inr fun hu => ?_
        cases hu with
        | self => exact hcs rfl
        | step hp hu =>
          have hca : c ≠ .absent := by
            rintro rfl
            obtain ⟨cnode, hcn, -⟩ := parent?_eq_some.1 hp
            simp at hcn
          rw [hl.parent?_of_mem_occupants hn hc hca] at hp
          cases hp
          exact hnot hu

/-- The root lies under no other node. -/
theorem root_not_under (hl : arena.Linked) (hroot : arena.node? arena.root = some node) :
    arena.root = site ∨ ¬ arena.Under site arena.root := by
  refine or_iff_not_imp_left.2 fun hne hu => ?_
  cases hu with
  | self => exact hne rfl
  | step hp _ =>
    rcases hl.rooted with hr | ⟨rnode, hrn, hlone⟩
    · rw [hr] at hroot
      simp at hroot
    · rw [(parent?_eq_none_of_node? hrn).2 hlone] at hp
      cases hp

/-- There is still a root. -/
theorem Walked.exists_root (h : Walked arena arena' site new) (hl : arena.Linked)
    (hroot : arena.node? arena.root = some node) :
    ∃ node', arena'.node? arena'.root = some node' := by
  rw [h.root, NodeId.replace]
  rcases root_not_under hl hroot with hs | hnot
  · rw [if_pos hs]
    obtain ⟨node', hn', -⟩ := h.place (hs ▸ hroot)
    exact ⟨node', hn'⟩
  · have hne : arena.root ≠ site := fun hs => hnot (hs ▸ .self)
    rw [if_neg hne]
    exact ⟨_, h.outside hroot hnot⟩

/-- What is left to do in the whole tree after a part of it was folded. -/
theorem Walked.remains_root (h : Walked arena arena' site new) (hl : arena.Linked)
    (hroot : arena.node? arena.root = some node) (hsite : arena.Under arena.root site) :
    Remains (arena.spans arena.root) (arena'.spans arena'.root) (arena.spans site).redexes := by
  have hone : (arena.descendants arena.root).count site = 1 :=
    List.count_eq_one_of_mem (hl.descendants_nodup hroot) ((hl.mem_descendants_iff hroot).2 hsite)
  have hremains := h.remains hl (hl.spans_mem_subtrees hroot hsite).1 ⟨node, hroot⟩
    (root_not_under hl hroot)
  rwa [hone, Nat.one_mul, ← h.root] at hremains

/-! ## Folding parts one after the other -/

/-- Apply the rule to some nodes in turn, and to the root in the end. Gives the number of rewrites
of all applications. -/
def rewriteInTurn : List NodeId → Edit Nat
  | [] => do rewrite (← get).root
  | site :: sites => do
    let count ← rewrite site
    let more ← rewriteInTurn sites
    return count + more

/-- Nodes each of which is in the tree under the root when the rule is applied to it. -/
def InTree : List NodeId → Arena → Prop
  | [], _ => True
  | site :: sites, arena =>
    site ∈ arena.descendants arena.root ∧ InTree sites ((rewrite site).after arena)

private theorem grows_rewriteInTurn (sites : List NodeId) : Grows (rewriteInTurn sites) := by
  intro size
  induction sites with
  | nil => exact .bind .read fun arena => grows_rewrite arena.root size
  | cons site sites ih => exact .bind (grows_rewrite site size) fun _ => .bind ih fun _ => .pure _

private theorem ends_rewrite (hl : arena.Linked) (hn : arena.node? top = some node)
    (hplace : top = arena.root ∨ node.parent.isPresent = true)
    (hhole : (arena.spans top).hasHole = false) {E : Violation → Prop} :
    Ends (rewrite top) arena (fun count arena' => arena' = (rewrite top).after arena ∧
      count = (arena.spans top).redexes ∧ ∃ new, Walked arena arena' top new) E := by
  refine ((endsWalked_rewrite hl hn hplace).with_after).imp ?_ ?_
  · rintro count arena' ⟨hafter, -, hcount, hw⟩
    exact ⟨hafter, hcount, hw⟩
  · rintro v ⟨-, hhole'⟩
    cases hhole.symm.trans hhole'

/-- Whatever was folded before, the tree ends up collapsed, and all parentheses that were to go have
been counted. -/
theorem ends_rewriteInTurn {sites : List NodeId} (hl : arena.Linked)
    (hroot : arena.node? arena.root = some node)
    (hhole : (arena.spans arena.root).hasHole = false) (hsites : InTree sites arena)
    {E : Violation → Prop} :
    Ends (rewriteInTurn sites) arena (fun count last => last.contains last.root = true ∧
      count = (arena.spans arena.root).redexes ∧
      last.spans last.root = (arena.spans arena.root).collapse) E := by
  induction sites generalizing arena node with
  | nil =>
    refine .read_bind ((ends_rewrite hl hroot (.inl rfl) hhole).imp ?_ fun _ h => h)
    rintro count last ⟨-, hcount, new, hw⟩
    have hnew : last.root = new := by rw [hw.root, NodeId.replace, if_pos rfl]
    obtain ⟨node', hn', -⟩ := hw.place hroot
    rw [hnew]
    exact ⟨contains_iff.2 ⟨node', hn'⟩, hcount, hw.spans⟩
  | cons site sites ih =>
    obtain ⟨hsite, hrest⟩ := hsites
    have hunder := (hl.mem_descendants_iff hroot).1 hsite
    obtain ⟨⟨snode, hsn⟩, hpart⟩ := hl.spans_mem_subtrees hroot hunder
    have hplace : site = arena.root ∨ snode.parent.isPresent = true := by
      cases hunder with
      | self => exact .inl rfl
      | step hp _ =>
        obtain ⟨snode', hsn', rfl, hpp⟩ := parent?_eq_some.1 hp
        cases Option.some.inj (hsn.symm.trans hsn')
        exact .inr hpp
    refine .bind (ends_rewrite hl hsn hplace (Tree.hasHole_of_mem_subtrees hhole hpart)) ?_
      fun count size => .bind (grows_rewriteInTurn sites size) fun more => .pure _
    rintro count middle ⟨rfl, rfl, new, hw⟩
    have hremains := hw.remains_root hl hroot hunder
    obtain ⟨rnode, hrn⟩ := hw.exists_root hl hroot
    refine .bind (ih hw.linked hrn (hremains.hasHole hhole) hrest) ?_ fun more size => .pure _
    rintro more last ⟨hlast, rfl, hspans⟩
    refine .pure ⟨hlast, ?_, hspans.trans hremains.collapse⟩
    rw [hremains.redexes, Nat.add_comm]

/-- Folding any parts of a tree in turn and then the whole comes to the same as folding the whole at
once: the trees match, and the rewrites are as many. -/
theorem rewriteInTurn_matches (h : arena.Reachable) (hroot : arena.contains arena.root = true)
    (hhole : (arena.spans arena.root).hasHole = false) {sites : List NodeId}
    (hsites : InTree sites arena)
    (hs : ((rewriteInTurn sites).after arena).size ≤ NodeId.maxIndex)
    (hs' : ((rewrite arena.root).after arena).size ≤ NodeId.maxIndex) :
    ∃ count last single, (rewriteInTurn sites).run arena = .ok count last ∧
      (rewrite arena.root).run arena = .ok count single ∧
      last.subtreesMatch last.root single single.root = true := by
  have hl : arena.Linked := h.linkedIfSmall
    (Nat.le_trans (grows_rewrite arena.root arena.size arena (Nat.le_refl _)) hs')
  obtain ⟨node, hn⟩ := contains_iff.1 hroot
  have hmany := ends_rewriteInTurn (E := fun _ => False) hl hn hhole hsites
  have hnone : InTree [] arena := trivial
  have hone := ends_rewriteInTurn (E := fun _ => False) hl hn hhole hnone
  obtain ⟨count, last, hrun, hlast, rfl, hspans⟩ := hmany.exists_ok hs
  obtain ⟨count, single, hrun', hsingle, rfl, hspans'⟩ := hone.exists_ok hs'
  refine ⟨_, last, single, hrun, hrun', ?_⟩
  rw [subtreesMatch, mismatch?_eq_none hlast hsingle (hspans.trans hspans'.symm)]
  rfl

/-- The right one of two operands is folded before the left one, which gives other handles. -/
theorem rewriteInTurn_matches_operands :
    ∃ arena last single, arena = [Operation.alloc .nullLiteral ⟨1, 5⟩,
        .alloc (.parenthesizedExpression ⟨0⟩) ⟨0, 6⟩, .alloc .nullLiteral ⟨11, 15⟩,
        .alloc (.parenthesizedExpression ⟨2⟩) ⟨10, 16⟩,
        .alloc (.infixExpression .equals ⟨1⟩ ⟨3⟩) ⟨0, 16⟩,
        .setRoot ⟨4⟩].foldl Operation.perform .empty ∧
      (rewriteInTurn [⟨3⟩]).run arena = .ok 2 last ∧ (rewrite ⟨4⟩).run arena = .ok 2 single ∧
      last ≠ single ∧ last.subtreesMatch last.root single single.root = true := by
  obtain ⟨arena, ha⟩ : ∃ arena, arena = [Operation.alloc .nullLiteral ⟨1, 5⟩,
    .alloc (.parenthesizedExpression ⟨0⟩) ⟨0, 6⟩, .alloc .nullLiteral ⟨11, 15⟩,
    .alloc (.parenthesizedExpression ⟨2⟩) ⟨10, 16⟩,
    .alloc (.infixExpression .equals ⟨1⟩ ⟨3⟩) ⟨0, 16⟩,
    .setRoot ⟨4⟩].foldl Operation.perform .empty := ⟨_, rfl⟩
  have hreachable : arena.Reachable := ha ▸ Arena.Reachable.empty.performAll _
  have hroot : arena.root = ⟨4⟩ ∧ arena.contains arena.root = true := by
    rw [ha]
    decide
  have hhole : (arena.spans arena.root).hasHole = false := by
    rw [ha]
    decide +kernel
  have hsites : InTree [⟨3⟩] arena := by
    refine ⟨?_, trivial⟩
    rw [ha]
    decide +kernel
  have hs : ((rewriteInTurn [⟨3⟩]).after arena).size ≤ NodeId.maxIndex := by
    rw [ha]
    decide +kernel
  have hs' : ((rewrite arena.root).after arena).size ≤ NodeId.maxIndex := by
    rw [ha]
    decide +kernel
  have hdiffer : (match (rewriteInTurn [⟨3⟩]).run arena, (rewrite ⟨4⟩).run arena with
      | .ok _ last, .ok count single => decide (last ≠ single) && count == 2
      | _, _ => false) = true := by
    rw [ha]
    decide +kernel
  obtain ⟨count, last, single, hrun, hrun', hmatch⟩ :=
    rewriteInTurn_matches hreachable hroot.2 hhole hsites hs hs'
  rw [hroot.1] at hrun'
  rw [hrun, hrun'] at hdiffer
  obtain ⟨hne, rfl⟩ : last ≠ single ∧ count = 2 := by simpa using hdiffer
  exact ⟨arena, last, single, ha, hrun, hrun', hne, hmatch⟩

end JavaFold.ParenthesizedLiteral
