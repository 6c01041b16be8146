import JavaFold.Proofs.Arena.FullTree

/-!
# Handles of new nodes

A new node gets the number of nodes before it as its handle, up to the largest handle there is. But
that one stands for no node. So there is one node in the life of an arena, the last one that can be
allocated, whose handle does not lead to it. The handle of every other node leads to the node, and
its children know it as their parent (`Issued`). The last node is there and cannot be found, and its
children have a location and no parent (`Overlooked`).
-/

namespace JavaFold

namespace Arena

variable {arena arena' : Arena} {id x : NodeId} {kind : ArenaKind} {span : Span} {node : Node}

/-- A handle leads to a new node, and the children of the node know it as their parent. -/
structure Issued (arena : Arena) (kind : ArenaKind) (id : NodeId) : Prop where
  /-- The handle is not the one of no node. -/
  ne_absent : id ≠ .absent
  /-- The node is there. -/
  contained : arena.contains id = true
  /-- Every child has the node as its parent. -/
  adopted : ∀ c ∈ kind.children.map Prod.snd, arena.parent? c = some id

/-- A new node has the handle of no node. All that tells of it are the number of nodes and the
locations of its children. -/
structure Overlooked (arena arena' : Arena) (kind : ArenaKind) (id : NodeId) : Prop where
  /-- The handle is the one of no node. -/
  absent : id = .absent
  /-- There is one more node. -/
  size : arena'.size = arena.size + 1
  /-- Handles lead to the nodes that were there before. -/
  contains : ∀ x, arena'.contains x = arena.contains x
  /-- No node gets a parent. -/
  parent? : ∀ x, arena'.parent? x = arena.parent? x
  /-- The trees are the same. -/
  tree : ∀ x, arena'.tree x = arena.tree x
  /-- The children get a location without a parent. -/
  unparented : ∀ {location c}, (location, c) ∈ kind.children →
    arena'.parent? c = none ∧ arena'.location? c = some location
  /-- Whatever is done next, no further node is allocated. -/
  last : ∀ (operations : List Operation) kind span,
    (Edit.alloc kind span).run (operations.foldl Operation.perform arena') =
      .error (.tooManyNodes arena'.size) (operations.foldl Operation.perform arena')

/-! ## While handles last -/

/-- A handle other than the one of no node leads to the new node. -/
theorem Adoptable.issued_push (h : arena.Adoptable kind) (hs : arena.size < NodeId.maxIndex) :
    (arena.push kind span).Issued kind ⟨arena.size⟩ where
  ne_absent := NodeId.isPresent_iff.1 (isPresent_next hs)
  contained := contains_iff.2 ⟨_, node?_push_self hs h⟩
  adopted := by
    intro c hc
    obtain ⟨node, hn, -, -⟩ := h.attachable c hc
    obtain ⟨⟨location, c⟩, hm, rfl⟩ := List.mem_map.1 hc
    have hpushed : (arena.push kind span).node? c =
        some { node with parent := ⟨arena.size⟩, location := some location } := by
      rw [node?_push_child hs h hm, hn, Option.map_some]
    exact parent?_eq_some.2 ⟨_, hpushed, rfl, isPresent_next hs⟩

/-! ## The last node -/

end Arena

private theorem Edit.run_alloc_of_full {arena : Arena} (hs : NodeId.maxIndex < arena.size)
    (kind : ArenaKind) (span : Span) :
    (alloc kind span).run arena = .error (.tooManyNodes arena.size) arena := by
  rw [run_alloc, if_pos hs]

/-- Only allocation changes the number of nodes, so it stays where allocation is refused. -/
theorem Operation.size_perform_of_full {arena : Arena} {size : Nat} (hs : NodeId.maxIndex < size)
    (h : arena.size = size) (operation : Operation) : (operation.perform arena).size = size := by
  refine keeps_perform (P := fun arena => arena.size = size) (fun kind span arena h => ?_)
    (fun text arena h => ?_) (fun id arena h => ?_) (fun old new arena h => ?_)
    (fun id arena h => ?_) h operation
  · rwa [Edit.after, Edit.run_alloc_of_full (h ▸ hs)]
  · exact (Edit.size_after_intern text arena).trans h
  · exact (Edit.size_after_setRoot id arena).trans h
  · exact (Edit.size_after_replaceChild old new arena).trans h
  · exact (Edit.size_after_removeChild id arena).trans h

namespace Arena

variable {arena arena' : Arena} {id x : NodeId} {kind : ArenaKind} {span : Span} {node : Node}

private theorem size_performAll_of_full {size : Nat} (hs : NodeId.maxIndex < size)
    (h : arena.size = size)
    (operations : List Operation) : (operations.foldl Operation.perform arena).size = size := by
  induction operations generalizing arena with
  | nil => exact h
  | cons operation rest ih => exact ih (operation.size_perform_of_full hs h)

/-- The node for which only the handle of no node is left is overlooked. -/
theorem Linked.overlooked_push (hl : arena.Linked) (h : arena.Adoptable kind)
    (hs : arena.size = NodeId.maxIndex) :
    Overlooked arena (arena.push kind span) kind ⟨arena.size⟩ := by
  have hshows : (arena.push kind span).Shows arena := hl.shows_push h hs
  have hfull : NodeId.maxIndex < (arena.push kind span).size := by
    rw [size_push]
    omega
  refine {
    absent := congrArg NodeId.mk hs
    size := size_push ..
    contains := fun x => (hshows.contains_eq x).symm
    parent? := fun x => (hshows.parent?_eq x).symm
    tree := fun x => (hshows.tree_eq x).symm
    unparented := fun hc => ⟨?parent, h.location?_push hc⟩
    last := fun operations kind span => ?last }
  case parent =>
    -- the parent that is recorded is the handle of no node, as it was before
    obtain ⟨node, hn, -, hp⟩ := h.attachable _ (List.mem_map_of_mem hc)
    rw [← hshows.parent?_eq]
    exact (parent?_eq_none_of_node? hn).2 hp
  case last =>
    have hsize := size_performAll_of_full hfull rfl operations
    rw [Edit.run_alloc_of_full (hsize ▸ hfull), hsize]

/-- In every arena that operations lead to, a new node gets the number of nodes before it as its
handle. The handle leads to the node and the children know it, unless the one handle that is left is
that of no node: then the new node is overlooked. -/
theorem reachable_alloc_issued (h : arena.Reachable)
    (hrun : (Edit.alloc kind span).run arena = .ok id arena') :
    id = ⟨arena.size⟩ ∧
      (arena.size < NodeId.maxIndex ∧ arena'.Issued kind id ∨
        arena.size = NodeId.maxIndex ∧ Overlooked arena arena' kind id) := by
  obtain ⟨hs, had, rfl, rfl⟩ := Edit.run_alloc_eq_ok.1 hrun
  rcases hs.lt_or_eq with hlt | heq
  · exact ⟨rfl, .inl ⟨hlt, had.issued_push hlt⟩⟩
  · exact ⟨rfl, .inr ⟨heq, (h.linkedIfSmall hs).overlooked_push had heq⟩⟩

/-- A returned literal: the handle of the statement leads to it, and the literal knows it. -/
theorem reachable_alloc_issued_returned :
    ∃ arena arena', arena = Operation.perform .empty (.alloc .nullLiteral ⟨7, 11⟩) ∧
      (Edit.alloc (.returnStatement ⟨0⟩) ⟨0, 12⟩).run arena = .ok ⟨1⟩ arena' ∧
      arena'.Issued (.returnStatement ⟨0⟩) ⟨1⟩ ∧ arena'.parent? ⟨0⟩ = some ⟨1⟩ := by
  obtain ⟨arena, ha⟩ : ∃ arena, arena = Operation.perform .empty (.alloc .nullLiteral ⟨7, 11⟩) :=
    ⟨_, rfl⟩
  have hreachable : arena.Reachable := ha ▸ Reachable.empty.perform _
  have hrun : (Edit.alloc (.returnStatement ⟨0⟩) ⟨0, 12⟩).run arena =
      .ok ⟨1⟩ (arena.push (.returnStatement ⟨0⟩) ⟨0, 12⟩) := by
    rw [ha]
    rfl
  have hsize : arena.size = 1 := by
    rw [ha]
    rfl
  rcases reachable_alloc_issued hreachable hrun with ⟨-, ⟨-, hissued⟩ | ⟨hfull, -⟩⟩
  · exact ⟨arena, _, ha, hrun, hissued, hissued.adopted ⟨0⟩ (by decide)⟩
  · rw [hsize] at hfull
    exact absurd hfull (by decide)

/-- Parentheses around a full tree of height 31, which uses up all handles but the one of no node.
They get that one, and the tree in them has a location and no parent. -/
theorem alloc_issued_fullTree :
    ∃ arena id arena', arena = (Operation.fullTree 31).foldl Operation.perform .empty ∧
      arena.Reachable ∧
      (Edit.alloc (.parenthesizedExpression ⟨4294967294⟩) .nowhere).run arena = .ok id arena' ∧
      id = .absent ∧ arena'.contains id = false ∧ arena'.parent? ⟨4294967294⟩ = none ∧
      arena'.location? ⟨4294967294⟩ = some (.single .expression) ∧
      ¬ arena'.Issued (.parenthesizedExpression ⟨4294967294⟩) id := by
  -- the nodes are never computed: what matters is their number and that the last one is detached
  obtain ⟨arena, ha⟩ : ∃ arena, arena = (Operation.fullTree 31).foldl Operation.perform .empty :=
    ⟨_, rfl⟩
  have hcrowned : arena.Crowned 4294967294 := by
    rw [ha]
    exact crowned_fullTree 31 (by decide)
  have hsize : arena.size = NodeId.maxIndex := hcrowned.size
  obtain ⟨node, hn, hp⟩ := hcrowned.parentless
  have hattachable : arena.Attachable ⟨4294967294⟩ :=
    ⟨node, hn, hcrowned.root ▸ by decide, hp⟩
  have had : arena.Adoptable (.parenthesizedExpression ⟨4294967294⟩) :=
    ⟨List.forall_mem_singleton.2 hattachable, by decide⟩
  have hlost : Overlooked arena (arena.push (.parenthesizedExpression ⟨4294967294⟩) .nowhere)
      (.parenthesizedExpression ⟨4294967294⟩) ⟨arena.size⟩ :=
    hcrowned.linked.overlooked_push had hsize
  have hchild : (.single .expression, ⟨4294967294⟩) ∈
      (NodeKind.parenthesizedExpression ⟨4294967294⟩ : ArenaKind).children := by decide
  obtain ⟨hparent, hlocation⟩ := hlost.unparented hchild
  refine ⟨arena, _, _, ha, ha ▸ Reachable.empty.performAll _,
    Edit.run_alloc_eq_ok.2 ⟨hsize.le, had, rfl, rfl⟩, hlost.absent, ?_, hparent, hlocation,
    fun h => h.ne_absent hlost.absent⟩
  rw [hlost.contains, hlost.absent]
  rfl

end Arena

end JavaFold
