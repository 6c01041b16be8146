import JavaFold.Proofs.Fold.Driver
import JavaFold.Proofs.Fold.Rewrite

/-!
# The driver with the rule for parenthesized literals

One application of the rule removes all parentheses around literals, however deep they are nested,
and an application to a tree without any leaves the arena as it is, to the last field. So the driver
takes one round if there is nothing to do, and two otherwise, the second of which is idle.
-/

namespace JavaFold

variable {arena arena' : Arena} {top x new : NodeId} {node : Node}

namespace ParenthesizedLiteral

open Arena Edit

/-! ## Nothing to do -/

/-- A node that neither encloses a literal nor encloses nothing is left alone. -/
theorem run_collapse_eq_zero (hl : arena.Linked) (hn : arena.node? x = some node)
    (hredex : (arena.spans x).isRedex = false) (hhole : (arena.spans x).isHole = false) :
    (collapse x).run arena = .ok 0 arena := by
  rw [hl.spans_eq hn] at hredex hhole
  rw [collapse, run_read_bind, hn, Option.map_some]
  by_cases htag : node.kind.tag = .parenthesizedExpression
  · obtain ⟨inner, hkind⟩ := NodeKind.exists_of_tag_eq htag
    rw [hkind] at hredex hhole ⊢
    have hmem : inner ∈ node.kind.occupants := by
      rw [hkind]
      exact List.mem_singleton.2 rfl
    rcases hl.occupant_cases hn hmem with rfl | ⟨_, inode, -, hinode, -⟩
    · change Tree.isHole (.node _ (.parenthesizedExpression (arena.spans .absent))) = false at hhole
      rw [spans_absent] at hhole
      cases hhole
    · change (arena.spans inner).endsInLiteral = false at hredex
      have hliteral : inode.tag.isLiteral = false := by
        rw [hl.spans_eq hinode] at hredex
        by_cases hparen : inode.kind.tag = .parenthesizedExpression
        · rw [Node.tag, hparen]
          rfl
        · rwa [Tree.endsInLiteral_of_tag_ne (by rwa [NodeKind.tag_map]), NodeKind.tag_map] at hredex
      change (Edit.ofExcept (arena.require inner) >>= _).run arena = _
      rw [require_eq_ok.2 hinode, run_bind_ok (run_ofExcept_ok _ _), hliteral]
      rfl
  · split
    next expression heq =>
      rw [Option.some.inj heq] at htag
      exact absurd rfl htag
    next => rfl

private theorem run_collapseAll_eq_zero {ids : List NodeId}
    (h : ∀ x ∈ ids, (collapse x).run arena = .ok 0 arena) :
    (collapseAll ids).run arena = .ok 0 arena := by
  induction ids with
  | nil => rfl
  | cons x ids ih =>
    obtain ⟨hfirst, hrest⟩ := List.forall_mem_cons.1 h
    rw [← List.singleton_append, collapseAll_append, collapseAll_singleton, run_bind_ok hfirst,
      run_bind_ok (ih hrest)]
    rfl

/-- Without parentheses around literals the rule does nothing. -/
theorem run_rewrite_eq_zero (hl : arena.Linked) (hn : arena.node? top = some node)
    (hplace : top = arena.root ∨ node.parent.isPresent = true)
    (hredexes : (arena.spans top).redexes = 0) (hhole : (arena.spans top).hasHole = false) :
    (rewrite top).run arena = .ok 0 arena := by
  rw [run_rewrite hl hn hplace]
  refine run_collapseAll_eq_zero fun x hx => ?_
  obtain ⟨⟨xnode, hxn⟩, hsub⟩ := hl.spans_mem_subtrees hn ((hl.mem_postorder_iff hn).1 hx)
  refine run_collapse_eq_zero hl hxn ?_ ?_
  · exact Bool.eq_false_iff.2 (List.countP_eq_zero.1 hredexes _ hsub)
  · exact Bool.eq_false_iff.2 (List.any_eq_false.1 hhole _ hsub)

/-! ## One application -/

/-- Without parentheses around nothing the rule comes to its end. -/
theorem run_rewrite_eq_ok (hl : arena.Linked) (hn : arena.node? top = some node)
    (hplace : top = arena.root ∨ node.parent.isPresent = true)
    (hhole : (arena.spans top).hasHole = false)
    (hs : ((rewrite top).after arena).size ≤ NodeId.maxIndex) :
    ∃ arena' new, (rewrite top).run arena = .ok (arena.spans top).redexes arena' ∧
      Walked arena arena' top new := by
  have hwalk := endsWalked_rewrite hl hn hplace
  rw [EndsWalked, Ends] at hwalk
  rw [Edit.after] at hs
  cases hr : (rewrite top).run arena with
  | error violation last =>
    rw [hr] at hwalk hs
    cases hhole.symm.trans (hwalk hs).2
  | ok count last =>
    rw [hr] at hwalk hs
    obtain ⟨-, rfl, new, hw⟩ := hwalk hs
    exact ⟨last, new, rfl, hw⟩

namespace Walked

/-- The node that the walk leaves is the one in the place of the first one. -/
theorem held (h : Walked arena arena' top new) (hl : arena.Linked)
    (hn : arena.node? top = some node) (hplace : top = arena.root ∨ node.parent.isPresent = true) :
    arena.Held arena' top (.ok new) := by
  by_cases hr : top = arena.root
  · have hnew : arena'.root = new := by rw [h.root, NodeId.replace, if_pos hr.symm]
    exact hnew ▸ .root hr
  · have hp := hplace.resolve_left hr
    obtain ⟨location, _, hloc, -⟩ := hl.up hn hp
    have hparent : arena.parent? top = some node.parent := parent?_eq_some.2 ⟨node, hn, rfl, hp⟩
    have hlocation : arena.location? top = some location := by
      rw [location?, hn, Option.bind_some, hloc]
    rw [← h.resolve hparent hlocation]
    exact .slot hr hparent hlocation

/-- The node that the walk leaves is the root or attached, as the first one was. -/
theorem placed (h : Walked arena arena' top new) (hn : arena.node? top = some node)
    (hplace : top = arena.root ∨ node.parent.isPresent = true) :
    ∃ node', arena'.node? new = some node' ∧
      (new = arena'.root ∨ node'.parent.isPresent = true) := by
  obtain ⟨node', hn', hparent, -⟩ := h.place hn
  refine ⟨node', hn', hplace.imp ?_ ?_⟩
  · intro hr
    rw [h.root, NodeId.replace, if_pos hr.symm]
  · intro hp
    rwa [hparent]

end Walked

private theorem size_le_of_run_rewrite {count : Nat} (hl : arena.Linked)
    (h : (rewrite top).run arena = .ok count arena') : arena'.size ≤ NodeId.maxIndex := by
  obtain ⟨node, hn, hplace⟩ := placed_of_run_rewrite h
  rw [run_rewrite hl hn hplace] at h
  exact size_le_of_run_collapseAll h hl.small

/-- No arena has room for more rewrites than can be counted. -/
theorem redexes_le_maxCount (hl : arena.Linked) (hn : arena.node? top = some node) :
    (arena.spans top).redexes ≤ Rule.maxCount :=
  calc (arena.spans top).redexes
      ≤ (arena.spans top).subtrees.length := List.countP_le_length
    _ = (arena.postorder top).length := by rw [Tree.length_subtrees, length_postorder_eq_spans]
    _ ≤ arena.size := hl.length_postorder_le hn
    _ ≤ NodeId.maxIndex := hl.small
    _ ≤ Rule.maxCount := by decide

/-! ## Rounds of the rule -/

section Rounds

variable {left earlier total count : Nat}

private theorem run_rule (h : (rewrite top).run arena = .ok count arena') :
    (rule.rewrite top).run arena = .ok count arena' := by
  change Rewrite.ofEdit (rewrite top) arena = _
  rw [Rewrite.ofEdit, h]

private theorem grows_rule : ∀ r ∈ [rule], ∀ root, Rewrite.Grows (r.rewrite root) := by
  intro r hr root size arena h
  rw [List.mem_singleton.1 hr]
  have hgrows := grows_rewrite root size arena h
  rwa [← Rewrite.after_ofEdit] at hgrows

/-- The first application leaves no more nodes than the driver. -/
theorem size_after_rewrite_le {maxRounds : Nat} (hcheck : arena.checkFoldRoot top = .ok ()) :
    ((rewrite top).after arena).size ≤
      ((Rule.toFixedPoint [rule] (maxRounds + 1) top).after arena).size := by
  rw [← Rewrite.after_ofEdit]
  exact Rule.size_le_after_toFixedPoint grows_rule hcheck

private theorem within_singleton (h : total ≤ Rule.maxCount) : Rule.Within [total] :=
  Rule.within_cons.2 ⟨h, fun _ => Nat.zero_le _⟩

/-- A round without rewrites is the last one. -/
theorem run_roundsFrom_of_eq_zero (htotal : total ≤ Rule.maxCount)
    (hcheck : arena.checkFoldRoot top = .ok ()) (h : (rewrite top).run arena = .ok 0 arena) :
    (Rule.roundsFrom [rule] (left + 1) earlier [total] top).run arena =
      .ok ⟨top, earlier + 1, [(name, total)]⟩ arena := by
  have hchain := Rule.Chain.single ⟨rule, arena, top, 0, arena⟩ hcheck (run_rule h)
    (.inl ⟨rfl, rfl⟩)
  exact Rule.run_roundsFrom_idle rfl (within_singleton htotal) ⟨rfl, by simp⟩ hchain

/-- A round with rewrites is followed by one from the node in the same place. -/
theorem run_roundsFrom_of_pos (hcounted : total + count ≤ Rule.maxCount)
    (hcheck : arena.checkFoldRoot top = .ok ())
    (h : (rewrite top).run arena = .ok count arena') (hcount : 0 < count)
    (hheld : arena.Held arena' top (.ok new)) :
    (Rule.roundsFrom [rule] (left + 1) earlier [total] top).run arena =
      (Rule.roundsFrom [rule] left (earlier + 1) [total + count] new).run arena' := by
  have hchain := Rule.Chain.single ⟨rule, arena, top, count, arena'⟩ hcheck (run_rule h)
    (.inr ⟨hcount, hheld⟩)
  have hwithin := within_singleton (Nat.le_of_add_right_le hcounted)
  exact Rule.run_roundsFrom_busy rfl hwithin ⟨rfl, _, List.mem_singleton.2 rfl, hcount⟩ hchain
    (Rule.fits_cons.2 ⟨hcounted, fun _ => Nat.zero_le _⟩)

end Rounds

/-- If there is nothing to do, the driver takes one round and leaves the arena as it is. -/
theorem run_toFixedPoint_of_eq_zero (hl : arena.Linked) (hn : arena.node? top = some node)
    (hplace : top = arena.root ∨ node.parent.isPresent = true)
    (hredexes : (arena.spans top).redexes = 0) (hhole : (arena.spans top).hasHole = false)
    (maxRounds : Nat) :
    (Rule.toFixedPoint [rule] (maxRounds + 1) top).run arena = .ok ⟨top, 1, [(name, 0)]⟩ arena := by
  have hcheck := checkFoldRoot_eq_ok hl hn hplace
  rw [Rule.run_toFixedPoint hcheck]
  exact run_roundsFrom_of_eq_zero (Nat.zero_le _) hcheck
    (run_rewrite_eq_zero hl hn hplace hredexes hhole)

/-- If there is something to do, a round does all of it, and another one would do nothing. -/
theorem run_toFixedPoint_of_pos (hl : arena.Linked) (hn : arena.node? top = some node)
    (hplace : top = arena.root ∨ node.parent.isPresent = true)
    (hredexes : 0 < (arena.spans top).redexes) (hhole : (arena.spans top).hasHole = false)
    (hs : ((rewrite top).after arena).size ≤ NodeId.maxIndex) :
    ∃ new arena', Walked arena arena' top new ∧
      (Rule.toFixedPoint [rule] 1 top).run arena = .error (.noFixedPoint 1) arena' ∧
      (∀ more, (Rule.toFixedPoint [rule] (more + 2) top).run arena =
        .ok ⟨new, 2, [(name, (arena.spans top).redexes)]⟩ arena') ∧
      ∀ more, (Rule.toFixedPoint [rule] (more + 1) new).run arena' =
        .ok ⟨new, 1, [(name, 0)]⟩ arena' := by
  obtain ⟨arena', new, hrun, hw⟩ := run_rewrite_eq_ok hl hn hplace hhole hs
  obtain ⟨node', hn', hplace'⟩ := hw.placed hn hplace
  have hcheck := checkFoldRoot_eq_ok hl hn hplace
  have hheld := hw.held hl hn hplace
  have hredexes' : (arena'.spans new).redexes = 0 := by rw [hw.spans, Tree.redexes_collapse]
  have hhole' : (arena'.spans new).hasHole = false := by rw [hw.spans, Tree.hasHole_collapse hhole]
  have hidle := run_rewrite_eq_zero hw.linked hn' hplace' hredexes' hhole'
  have hcounted : 0 + (arena.spans top).redexes ≤ Rule.maxCount :=
    (Nat.zero_add _).trans_le (redexes_le_maxCount hl hn)
  refine ⟨new, arena', hw, ?_, fun more => ?_, ?_⟩
  · rw [Rule.run_toFixedPoint hcheck]
    exact run_roundsFrom_of_pos hcounted hcheck hrun hredexes hheld
  · rw [Rule.run_toFixedPoint hcheck]
    refine (run_roundsFrom_of_pos hcounted hcheck hrun hredexes hheld).trans ?_
    rw [run_roundsFrom_of_eq_zero hcounted (checkFoldRoot_eq_ok hw.linked hn' hplace') hidle]
    simp only [Nat.zero_add, Nat.reduceAdd]
  · exact run_toFixedPoint_of_eq_zero hw.linked hn' hplace' hredexes' hhole'

/-- A run of the driver that comes to its end leaves a handle to every node that the first
application leaves. -/
theorem size_after_rewrite_le_of_run {report : Report} {maxRounds : Nat} (hl : arena.Linked)
    (hcheck : arena.checkFoldRoot top = .ok ())
    (h : (Rule.toFixedPoint [rule] (maxRounds + 1) top).run arena = .ok report arena') :
    ((rewrite top).after arena).size ≤ NodeId.maxIndex := by
  rw [Edit.after]
  cases hr : (rewrite top).run arena with
  | ok count last => exact size_le_of_run_rewrite hl hr
  | error violation last =>
    have hfailed : (rule.rewrite top).run arena = .error (.invariant violation) last := by
      change Rewrite.ofEdit (rewrite top) arena = _
      rw [Rewrite.ofEdit, hr]
    have hwithin : Rule.Within [0] := within_singleton (Nat.zero_le _)
    have hbreaks : Rule.BreaksOff [rule] [0] arena top (.invariant violation) last :=
      ⟨[], rule, [], arena, top, rfl, .done _ _, hwithin, .failed hcheck hfailed⟩
    rw [Rule.run_toFixedPoint hcheck] at h
    cases (Rule.run_roundsFrom_breaksOff rfl hwithin hbreaks).symm.trans h

/-- With two rounds or more the driver comes to its end and has collapsed the tree. -/
theorem exists_run_toFixedPoint (hl : arena.Linked) (hn : arena.node? top = some node)
    (hplace : top = arena.root ∨ node.parent.isPresent = true)
    (hhole : (arena.spans top).hasHole = false)
    (hs : ((rewrite top).after arena).size ≤ NodeId.maxIndex) (more : Nat) :
    ∃ report arena', (Rule.toFixedPoint [rule] (more + 2) top).run arena = .ok report arena' ∧
      arena'.Linked ∧ arena'.contains report.root = true ∧
      (top = arena.root → report.root = arena'.root) ∧
      arena'.spans report.root = (arena.spans top).collapse := by
  rcases Nat.eq_zero_or_pos (arena.spans top).redexes with hredexes | hredexes
  · exact ⟨_, _, run_toFixedPoint_of_eq_zero hl hn hplace hredexes hhole _, hl,
      contains_iff.2 ⟨node, hn⟩, id, (Tree.collapse_eq_self hredexes).symm⟩
  · obtain ⟨new, arena', hw, -, hrun, -⟩ := run_toFixedPoint_of_pos hl hn hplace hredexes hhole hs
    obtain ⟨node', hn', -⟩ := hw.placed hn hplace
    refine ⟨_, _, hrun more, hw.linked, contains_iff.2 ⟨node', hn'⟩, fun hr => ?_, hw.spans⟩
    rw [hw.root, NodeId.replace, if_pos hr.symm]

/-- The driver with this rule alone. Without a round it fails at once. Without parentheses around
literals it takes one round and leaves the arena as it is. Otherwise one round is not enough, and
two are: the rewrites are as many as there were such parentheses, none are left under the node in
the place of the first one, and another run from there changes nothing. No change is ever refused.
-/
theorem toFixedPoint_rule (h : arena.Reachable) (hc : arena.contains top = true)
    (hplace : top = arena.root ∨ ∃ parent, arena.parent? top = some parent)
    (hhole : (arena.spans top).hasHole = false) (maxRounds : Nat)
    (hs : ((Rule.toFixedPoint [rule] maxRounds top).after arena).size ≤ NodeId.maxIndex) :
    (maxRounds = 0 →
      (Rule.toFixedPoint [rule] maxRounds top).run arena = .error (.noFixedPoint 0) arena) ∧
    (1 ≤ maxRounds → (arena.spans top).redexes = 0 →
      (Rule.toFixedPoint [rule] maxRounds top).run arena = .ok ⟨top, 1, [(name, 0)]⟩ arena) ∧
    (maxRounds = 1 → 0 < (arena.spans top).redexes → ∃ arena',
      (Rule.toFixedPoint [rule] maxRounds top).run arena = .error (.noFixedPoint 1) arena') ∧
    (2 ≤ maxRounds → 0 < (arena.spans top).redexes → ∃ new arena',
      (Rule.toFixedPoint [rule] maxRounds top).run arena =
        .ok ⟨new, 2, [(name, (arena.spans top).redexes)]⟩ arena' ∧
      (arena'.spans new).redexes = 0 ∧ arena.Held arena' top (.ok new) ∧
      ∀ again, 1 ≤ again →
        (Rule.toFixedPoint [rule] again new).run arena' = .ok ⟨new, 1, [(name, 0)]⟩ arena') ∧
    ∀ violation arena', (Rule.toFixedPoint [rule] maxRounds top).run arena ≠
      .error (.invariant violation) arena' := by
  have hsize : arena.size ≤ NodeId.maxIndex :=
    Nat.le_trans (Rule.keeps_toFixedPoint
        (fun r hr root => grows_rule r hr root arena.size) maxRounds
      top arena (Nat.le_refl _)) hs
  have hl : arena.Linked := h.linkedIfSmall hsize
  obtain ⟨node, hn, hplace⟩ := exists_placed hc hplace
  have hcheck := checkFoldRoot_eq_ok hl hn hplace
  cases maxRounds with
  | zero =>
    have hrun : (Rule.toFixedPoint [rule] 0 top).run arena = .error (.noFixedPoint 0) arena := by
      rw [Rule.run_toFixedPoint hcheck]
      rfl
    exact ⟨fun _ => hrun, by omega, by omega, by omega, fun v last => by rw [hrun]; exact nofun⟩
  | succ more =>
    rcases Nat.eq_zero_or_pos (arena.spans top).redexes with hredexes | hredexes
    · have hrun := run_toFixedPoint_of_eq_zero hl hn hplace hredexes hhole more
      exact ⟨by omega, fun _ _ => hrun, by omega, by omega, fun v last => by rw [hrun]; exact nofun⟩
    · obtain ⟨new, arena', hw, hone, htwo, hagain⟩ := run_toFixedPoint_of_pos hl hn hplace hredexes
        hhole (Nat.le_trans (size_after_rewrite_le hcheck) hs)
      have hheld := hw.held hl hn hplace
      have hnone : (arena'.spans new).redexes = 0 := by rw [hw.spans, Tree.redexes_collapse]
      -- the idle round that ends the run is a second one
      cases more with
      | zero =>
        exact ⟨by omega, by omega, fun _ _ => ⟨arena', hone⟩, by omega,
          fun v last => by rw [hone]; exact nofun⟩
      | succ more =>
        refine ⟨by omega, by omega, by omega, fun _ _ => ⟨new, arena', htwo more, hnone, hheld, ?_⟩,
          fun v last => by rw [htwo]; exact nofun⟩
        intro again hge
        obtain ⟨more, rfl⟩ := Nat.exists_eq_add_of_le' hge
        exact hagain more

/-- Two pairs of parentheses around a literal that is returned. -/
theorem toFixedPoint_rule_returned :
    ∃ arena new arena', arena = [Operation.alloc .nullLiteral ⟨9, 13⟩,
        .alloc (.parenthesizedExpression ⟨0⟩) ⟨8, 14⟩, .alloc (.parenthesizedExpression ⟨1⟩)
            ⟨7, 15⟩,
        .alloc (.returnStatement ⟨2⟩) ⟨0, 16⟩].foldl Operation.perform .empty ∧
      (Rule.toFixedPoint [rule] 64 ⟨2⟩).run arena = .ok ⟨new, 2, [(name, 2)]⟩ arena' ∧
      arena.Held arena' ⟨2⟩ (.ok new) ∧
      (Rule.toFixedPoint [rule] 64 new).run arena' = .ok ⟨new, 1, [(name, 0)]⟩ arena' := by
  obtain ⟨arena, ha⟩ : ∃ arena, arena = [Operation.alloc .nullLiteral ⟨9, 13⟩,
    .alloc (.parenthesizedExpression ⟨0⟩) ⟨8, 14⟩, .alloc (.parenthesizedExpression ⟨1⟩) ⟨7, 15⟩,
    .alloc (.returnStatement ⟨2⟩) ⟨0, 16⟩].foldl Operation.perform .empty := ⟨_, rfl⟩
  have hreachable : arena.Reachable := ha ▸ Arena.Reachable.empty.performAll _
  have hc : arena.contains ⟨2⟩ = true := by
    rw [ha]
    decide
  have hp : arena.parent? ⟨2⟩ = some ⟨3⟩ := by
    rw [ha]
    decide
  have hhole : (arena.spans ⟨2⟩).hasHole = false := by
    rw [ha]
    decide +kernel
  have hredexes : (arena.spans ⟨2⟩).redexes = 2 := by
    rw [ha]
    decide +kernel
  have hs : ((Rule.toFixedPoint [rule] 64 ⟨2⟩).after arena).size ≤ NodeId.maxIndex := by
    rw [ha]
    decide +kernel
  obtain ⟨-, -, -, htwo, -⟩ := toFixedPoint_rule hreachable hc (.inr ⟨_, hp⟩) hhole 64 hs
  rw [hredexes] at htwo
  obtain ⟨new, arena', hrun, -, hheld, hagain⟩ := htwo (by decide) (by decide)
  exact ⟨arena, new, arena', ha, hrun, hheld, hagain 64 (by decide)⟩

end ParenthesizedLiteral

end JavaFold
