import JavaFold.Proofs.Fold.Visits

/-!
# The rule and its function on trees

The rule changes an arena in place, a slot at a time. What it leaves in the place of the node it
started from is the tree before without the parentheses around literals, as `Tree.collapse` computes
it, and the number of rewrites is the number of parentheses that end in a literal. It is refused
only where parentheses are around nothing.
-/

namespace JavaFold.ParenthesizedLiteral

open Arena Edit

variable {arena arena' : Arena} {top new : NodeId} {node : Node}

/-- A node that is the root or has a parent, with what it is stored as. -/
theorem exists_placed (hc : arena.contains top = true)
    (hplace : top = arena.root ∨ ∃ parent, arena.parent? top = some parent) :
    ∃ node, arena.node? top = some node ∧ (top = arena.root ∨ node.parent.isPresent = true) := by
  obtain ⟨node, hn⟩ := contains_iff.1 hc
  refine ⟨node, hn, hplace.imp_right ?_⟩
  rintro ⟨parent, hp⟩
  obtain ⟨node', hn', rfl, hpp⟩ := parent?_eq_some.1 hp
  cases Option.some.inj (hn.symm.trans hn')
  exact hpp

/-- A node with a location is the root or attached. -/
theorem placed_of_locationOf {result : Option Location} (h : arena.locationOf top = .ok result) :
    ∃ node, arena.node? top = some node ∧
      (top = arena.root ∨ node.parent.isPresent = true) := by
  obtain ⟨node, hn, hcases⟩ := locationOf_eq_ok.1 h
  exact ⟨node, hn, hcases.imp And.left fun hattached => hattached.2.1⟩

/-- Folding can start from a node that is the root or attached. -/
theorem checkFoldRoot_eq_ok (hl : arena.Linked) (hn : arena.node? top = some node)
    (hplace : top = arena.root ∨ node.parent.isPresent = true) :
    arena.checkFoldRoot top = .ok () := by
  have hlocation : ∃ location, arena.locationOf top = .ok location := by
    by_cases hr : top = arena.root
    · exact ⟨none, locationOf_eq_ok.2 ⟨node, hn, .inl ⟨hr, rfl⟩⟩⟩
    · have hp := hplace.resolve_left hr
      obtain ⟨location, _, hloc, -⟩ := hl.up hn hp
      exact ⟨some location, locationOf_eq_ok.2 ⟨node, hn, .inr ⟨hr, hp, hloc, nofun⟩⟩⟩
  obtain ⟨location, hlocation⟩ := hlocation
  rw [checkFoldRoot, hlocation]
  rfl

/-- A rewriting that comes to its end started from a node that is the root or attached. -/
theorem placed_of_run_rewrite {count : Nat}
    (hrun : (rewrite top).run arena = .ok count arena') :
    ∃ node, arena.node? top = some node ∧
      (top = arena.root ∨ node.parent.isPresent = true) := by
  rw [rewrite, run_read_bind, run_ofExcept_bind] at hrun
  split at hrun
  next hcheck =>
    obtain ⟨location, hlocation, -⟩ := bind_eq_ok.1 hcheck
    exact placed_of_locationOf hlocation
  next => cases hrun

/-- The rule takes the nodes of the tree before it, children first. -/
theorem run_rewrite (hl : arena.Linked) (hn : arena.node? top = some node)
    (hplace : top = arena.root ∨ node.parent.isPresent = true) :
    (rewrite top).run arena = (collapseAll (arena.postorder top)).run arena := by
  rw [rewrite, run_read_bind, checkFoldRoot_eq_ok hl hn hplace,
    run_bind_ok (run_ofExcept_ok _ _), run_walk_collapse hl hn hplace]

theorem grows_rewrite (top : NodeId) : Grows (rewrite top) := fun size =>
  keeps_rewrite (fun kind span => grows_alloc kind span size)
    (fun old new => grows_replaceChild old new size) (fun id => grows_setRoot id size) top

theorem endsWalked_rewrite (hl : arena.Linked) (hn : arena.node? top = some node)
    (hplace : top = arena.root ∨ node.parent.isPresent = true) :
    EndsWalked (rewrite top) arena top := by
  have h := endsWalked_collapseAll hl hn hplace
  rw [EndsWalked, Ends] at h ⊢
  rwa [run_rewrite hl hn hplace]

/-- The node that the walk leaves is found in the slot of the first one. -/
theorem Walked.resolve (h : Walked arena arena' top new) {parent : NodeId} {location : Location}
    (hp : arena.parent? top = some parent) (hloc : arena.location? top = some location) :
    arena'.resolve parent location = .ok new := by
  obtain ⟨node, hn, rfl, hpp⟩ := parent?_eq_some.1 hp
  rw [location?, hn, Option.bind_some] at hloc
  obtain ⟨node', hn', hparent, hlocation⟩ := h.place hn
  rw [← hparent] at hpp ⊢
  obtain ⟨location', pnode, hloc', hpn, hg⟩ := h.linked.up hn' hpp
  cases Option.some.inj (hloc'.symm.trans (hlocation.trans hloc))
  exact resolve_eq_ok.2 ⟨pnode, hpn, hg⟩

/-- In every arena that operations lead to, the rule turns the tree in the place of a node into the
one without the parentheses around literals, and fails exactly at parentheses around nothing. -/
theorem rewrite_refines_collapse (h : arena.Reachable) (hc : arena.contains top = true)
    (hplace : top = arena.root ∨ ∃ parent, arena.parent? top = some parent)
    (hs : ((rewrite top).after arena).size ≤ NodeId.maxIndex) :
    ((∃ count arena', (rewrite top).run arena = .ok count arena') ↔
      ∀ tree ∈ (arena.spans top).subtrees, tree.isHole = false) ∧
    (∀ violation arena', (rewrite top).run arena = .error violation arena' →
      violation = .absentNode .absent) ∧
    ∀ count arena', (rewrite top).run arena = .ok count arena' →
      count = (arena.spans top).subtrees.countP Tree.isRedex ∧
      ∃ new, (top = arena.root → new = arena'.root) ∧
        (∀ parent location, arena.parent? top = some parent →
          arena.location? top = some location → arena'.resolve parent location = .ok new) ∧
        arena'.spans new = (arena.spans top).collapse := by
  have hl : arena.Linked :=
    h.linkedIfSmall (Nat.le_trans (grows_rewrite top arena.size arena (Nat.le_refl _)) hs)
  obtain ⟨node, hn, hplace'⟩ := exists_placed hc hplace
  have hwalk := endsWalked_rewrite hl hn hplace'
  have hholes : (arena.spans top).hasHole = false ↔
      ∀ tree ∈ (arena.spans top).subtrees, tree.isHole = false := by
    rw [Tree.hasHole, List.any_eq_false]
    simp only [Bool.not_eq_true]
  rw [EndsWalked, Ends] at hwalk
  rw [after] at hs
  cases hr : (rewrite top).run arena with
  | error violation last =>
    rw [hr] at hwalk hs
    obtain ⟨rfl, hhole⟩ := hwalk hs
    refine ⟨⟨?_, fun hnone => ?_⟩, ?_, ?_⟩
    · rintro ⟨count, arena', h⟩
      cases h
    · rw [hholes.2 hnone] at hhole
      cases hhole
    · intro v arena' h
      cases h
      rfl
    · intro count arena' h
      cases h
  | ok count last =>
    rw [hr] at hwalk hs
    obtain ⟨hhole, rfl, new, hw⟩ := hwalk hs
    refine ⟨⟨fun _ => hholes.1 hhole, fun _ => ⟨_, _, rfl⟩⟩, ?_, ?_⟩
    · intro v arena' h
      cases h
    · intro count arena' h
      cases h
      refine ⟨rfl, new, ?_, fun parent location => hw.resolve, hw.spans⟩
      rintro rfl
      rw [hw.root, NodeId.replace, if_pos rfl]

/-- Parentheses around a literal that is returned. -/
theorem rewrite_refines_collapse_returned :
    ∃ arena arena' new, arena = [Operation.alloc .nullLiteral ⟨8, 12⟩,
        .alloc (.parenthesizedExpression ⟨0⟩) ⟨7, 13⟩,
        .alloc (.returnStatement ⟨1⟩) ⟨0, 14⟩].foldl Operation.perform .empty ∧
      (rewrite ⟨1⟩).run arena = .ok 1 arena' ∧
      arena'.resolve ⟨2⟩ (.single .expression) = .ok new ∧
      arena'.spans new = (arena.spans ⟨1⟩).collapse := by
  obtain ⟨arena, ha⟩ : ∃ arena, arena = [Operation.alloc .nullLiteral ⟨8, 12⟩,
    .alloc (.parenthesizedExpression ⟨0⟩) ⟨7, 13⟩,
    .alloc (.returnStatement ⟨1⟩) ⟨0, 14⟩].foldl Operation.perform .empty := ⟨_, rfl⟩
  have hreachable : arena.Reachable := ha ▸ Arena.Reachable.empty.performAll _
  have hp : arena.parent? ⟨1⟩ = some ⟨2⟩ := by
    rw [ha]
    decide
  have hloc : arena.location? ⟨1⟩ = some (.single .expression) := by
    rw [ha]
    decide
  have hs : ((rewrite ⟨1⟩).after arena).size ≤ NodeId.maxIndex := by
    rw [ha]
    decide
  have hcount : (match (rewrite ⟨1⟩).run arena with
      | .ok count _ => count == 1
      | .error .. => false) = true := by
    rw [ha]
    decide
  obtain ⟨node, hn, -⟩ := parent?_eq_some.1 hp
  have h := rewrite_refines_collapse hreachable (contains_iff.2 ⟨node, hn⟩) (.inr ⟨_, hp⟩) hs
  cases hr : (rewrite ⟨1⟩).run arena with
  | error violation last => simp [hr] at hcount
  | ok count last =>
    obtain rfl : count = 1 := by simpa [hr] using hcount
    obtain ⟨-, new, -, hresolve, hspans⟩ := h.2.2 _ _ hr
    exact ⟨arena, last, new, ha, hr, hresolve _ _ hp hloc, hspans⟩

end JavaFold.ParenthesizedLiteral
