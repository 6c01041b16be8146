import JavaFold.Proofs.Fold.Walk

/-!
# The nodes that the rule visits

The rule lists the children of a node when it comes to it, in an arena that it has changed on the
way. Still it visits the nodes that were under the first one, children first, and no others
(`run_walk_collapse`): the walk under one child leaves the nodes under the other children alone.
This holds for a walk that breaks off as well, for lack of handles or at parentheses around nothing,
since the walk over the nodes listed beforehand breaks off at the same visit.
-/

namespace JavaFold.ParenthesizedLiteral

open Arena Edit

variable {arena arena' : Arena} {top x parent : NodeId} {node : Node}

/-! ## Handles

A copy whose last node has no handle is not put in the place of anything, so a run that comes to its
end has left a handle to every node. -/

section Handles

variable {old copy : NodeId} {count : Nat}

private theorem size_le_of_run_alloc {kind : ArenaKind} {span : Span}
    (h : (alloc kind span).run arena = .ok copy arena') (hc : arena'.contains copy = true) :
    arena'.size ≤ NodeId.maxIndex := by
  obtain ⟨hs, -, rfl, rfl⟩ := run_alloc_eq_ok.1 h
  obtain ⟨node, hn⟩ := contains_iff.1 hc
  have hne : arena.size ≠ NodeId.maxIndex := fun he =>
    NodeId.isPresent_iff.1 (isPresent_of_node? hn) (congrArg NodeId.mk he)
  rw [size_push]
  omega

theorem size_le_of_run_copyUpTo {depth : Nat}
    (h : (copyUpTo depth top).run arena = .ok copy arena') (hc : arena'.contains copy = true) :
    arena'.size ≤ NodeId.maxIndex := by
  cases depth with
  | zero =>
    cases h
    cases hc
  | succ depth =>
    rw [copyUpTo, run_read_bind] at h
    cases hn : arena.node? top with
    | none =>
      rw [hn] at h
      cases h
      cases hc
    | some node =>
      rw [hn] at h
      obtain ⟨kind, middle, -, halloc⟩ := run_bind_eq_ok.1 h
      exact size_le_of_run_alloc halloc hc

/-- What is put in the place of a node is there. -/
theorem of_run_splice (h : (splice old new).run arena = .ok () arena') :
    arena.contains new = true ∧ arena'.size = arena.size := by
  rw [splice, run_read_bind, run_ofExcept_bind] at h
  split at h
  next location hlocation =>
    cases location with
    | none =>
      rw [replaceRoot, run_setRoot] at h
      split at h
      next hcheck =>
        cases h
        obtain ⟨node, hn, -⟩ := checkParentless_eq_ok.1 hcheck
        exact ⟨contains_iff.2 ⟨node, hn⟩, rfl⟩
      next => cases h
    | some location =>
      rw [run_replaceChild] at h
      split at h
      next hcheck =>
        cases h
        obtain ⟨⟨node, hn, -⟩, -⟩ := checkReplacement_eq_ok.1 hcheck
        exact ⟨contains_iff.2 ⟨node, hn⟩, size_replaced ..⟩
      next => cases h
  next => cases h

/-- A walk that succeeds has a handle for every node it made. -/
private theorem size_le_of_run_collapse (h : (collapse x).run arena = .ok count arena')
    (hs : arena.size ≤ NodeId.maxIndex) : arena'.size ≤ NodeId.maxIndex := by
  rw [collapse, run_read_bind] at h
  split at h
  next expression _ =>
    obtain ⟨inner, middle, hinner, h⟩ := run_bind_eq_ok.1 h
    cases hrequire : arena.require expression with
    | error v =>
      rw [hrequire] at hinner
      cases hinner
    | ok node =>
      rw [hrequire] at hinner
      cases hinner
      split at h
      next =>
        obtain ⟨literal, copied, hcopy, h⟩ := run_bind_eq_ok.1 h
        obtain ⟨_, _, hsplice, h⟩ := run_bind_eq_ok.1 h
        cases h
        rw [copySubtree, run_read_bind, hrequire] at hcopy
        obtain ⟨hc, hsize⟩ := of_run_splice hsplice
        rw [hsize]
        exact size_le_of_run_copyUpTo hcopy hc
      next =>
        cases h
        exact hs
  next =>
    cases h
    exact hs

theorem size_le_of_run_collapseAll {ids : List NodeId}
    (h : (collapseAll ids).run arena = .ok count arena') (hs : arena.size ≤ NodeId.maxIndex) :
    arena'.size ≤ NodeId.maxIndex := by
  induction ids generalizing arena count with
  | nil =>
    cases h
    exact hs
  | cons x ids ih =>
    rw [← List.singleton_append, collapseAll_append, collapseAll_singleton] at h
    obtain ⟨first, middle, hfirst, h⟩ := run_bind_eq_ok.1 h
    obtain ⟨more, last, hrest, h⟩ := run_bind_eq_ok.1 h
    cases h
    exact ih hrest (size_le_of_run_collapse hfirst hs)

end Handles

/-! ## The visits -/

/-- A walk that comes to its end leaves a node in the place of the first one. -/
theorem exists_walked {count : Nat} (hl : arena.Linked) (hn : arena.node? top = some node)
    (hplace : top = arena.root ∨ node.parent.isPresent = true)
    (h : (collapseAll (arena.postorder top)).run arena = .ok count arena') :
    ∃ new, Walked arena arena' top new := by
  have hwalk := endsWalked_collapseAll hl hn hplace
  rw [EndsWalked, Ends, h] at hwalk
  exact (hwalk (size_le_of_run_collapseAll h hl.small)).2.2

/-- The children of a node are visited with what was under them before the first visit. -/
theorem run_visitAll_children {cs : List NodeId} {visit : NodeId → Edit Nat} (hl : arena.Linked)
    (hnd : cs.Nodup) (hparent : ∀ c ∈ cs, arena.parent? c = some parent)
    (hvisit : ∀ c ∈ cs, ∀ start : Arena, start.Linked → start.tree c = arena.tree c →
      start.parent? c = some parent →
        (visit c).run start = (collapseAll (start.postorder c)).run start) :
    (visitAll visit cs).run arena = (collapseAll (cs.flatMap arena.postorder)).run arena := by
  induction cs generalizing arena with
  | nil => rfl
  | cons c cs ih =>
    rw [List.nodup_cons] at hnd
    have hc := hparent c (by simp)
    have hrest {d : NodeId} (hd : d ∈ cs) : arena.parent? d = some parent := hparent d
        (by simp [hd])
    rw [visitAll_cons, List.flatMap_cons, collapseAll_append,
      run_bind_congr (hvisit c (by simp) arena hl rfl hc)]
    cases hfirst : (collapseAll (arena.postorder c)).run arena with
    | error v middle => rw [run_bind_error hfirst, run_bind_error hfirst]
    | ok count middle =>
      obtain ⟨cnode, hcn, rfl, hpp⟩ := parent?_eq_some.1 hc
      obtain ⟨new, hw⟩ := exists_walked hl hcn (.inr hpp) hfirst
      have hne {d : NodeId} (hd : d ∈ cs) : c ≠ d := fun he => hnd.1 (he ▸ hd)
      rw [run_bind_ok hfirst, run_bind_ok hfirst,
        ← hw.flatMap_postorder hl hc hnd.1 fun d hd => hrest hd]
      refine run_bind_congr (ih hw.linked hnd.2 (fun d hd => ?_) fun d hd start hs ht => ?_) _
      · exact hw.parent?_sibling hl hc (hrest hd) (hne hd)
      · exact hvisit d (by simp [hd]) start hs
          (ht.trans (hw.tree_sibling hl hc (hrest hd) (hne hd)))

/-- A walk downwards that collapses on its way back up collapses in postorder. -/
private theorem run_walkUpTo_collapse {depth : Nat} (hl : arena.Linked)
    (hn : arena.node? top = some node)
    (hplace : top = arena.root ∨ node.parent.isPresent = true)
    (hdepth : (arena.postorder top).length ≤ depth) :
    (walkUpTo collapse depth top).run arena = (collapseAll (arena.postorder top)).run arena := by
  -- the steps left are compared with the nodes left, which do not change on the way
  induction depth generalizing arena top node with
  | zero =>
    rw [hl.postorder_eq hn, List.length_append] at hdepth
    simp at hdepth
  | succ depth ih =>
    rw [hl.postorder_eq hn, List.length_append, List.length_singleton] at hdepth
    rw [walkUpTo, run_read_bind, children?, hn, Option.map_some, Option.getD_some,
      hl.postorder_eq hn, collapseAll_append, collapseAll_singleton]
    refine run_bind_congr (run_visitAll_children hl (hl.children_nodup hn)
      (fun c hc => hl.parent?_of_mem_children hn hc) fun c hc start hs ht hp => ?_) _
    obtain ⟨cnode, hcn, rfl, hpp⟩ := parent?_eq_some.1 hp
    refine ih hs hcn (.inr hpp) ?_
    have hlength : (start.postorder c).length ≤
        ((node.kind.children.map Prod.snd).flatMap arena.postorder).length := by
      rw [postorder, ht, ← postorder, List.flatMap_def]
      exact (List.sublist_flatten_of_mem (List.mem_map_of_mem hc)).length_le
    omega

/-- The rule visits the nodes that were under the first one, children first. -/
theorem run_walk_collapse (hl : arena.Linked) (hn : arena.node? top = some node)
    (hplace : top = arena.root ∨ node.parent.isPresent = true) :
    (walk collapse top).run arena = (collapseAll (arena.postorder top)).run arena :=
  run_walkUpTo_collapse hl hn hplace (hl.length_postorder_le hn)

end JavaFold.ParenthesizedLiteral
