import JavaFold.Proofs.Arena.Source
import JavaFold.Proofs.Tree.Match

/-!
# Writing an arena and reading it back

The text of a tree that the grammar describes is read into an arena of its own, which differs from
the first one in handles and source ranges at most. A tree that was read is one that the grammar
describes, so writing and reading take turns without a change.
-/

namespace JavaFold

namespace Tree

variable {ι κ : Type}

/-- A tree without places has as many nodes. -/
theorem length_preorder_bare (tree : Tree ι) :
    tree.bare.preorder.length = tree.preorder.length := by
  rw [bare, preorder_mapInfo, List.length_map]

/-- A tree without places has the same text. -/
theorem text?_bare (tree : Tree ι) : tree.bare.text? = tree.text? := by
  rw [text?, text?, bare, marks_mapInfo]

/-- A tree without places is written the same. -/
theorem render?_bare (tree : Tree ι) : tree.bare.render? = tree.render? :=
  render?_mapInfo _ tree

end Tree

namespace Arena

open Grammar

variable {wide : Char → Bool} {goal : Goal} {source : String} {arena : Arena} {id : NodeId}

/-- Without places, the tree with spans is the tree with stamps. -/
theorem bare_spans (arena : Arena) (id : NodeId) :
    (arena.spans id).bare = (arena.tree id).bare := by
  rw [spans, Tree.bare, Tree.mapInfo_mapInfo]
  rfl

/-- There is a node in every place of a list of children. -/
theorem Linked.rowsFilled {node : Node} (hl : arena.Linked) (hn : arena.node? id = some node) :
    (arena.tree id).RowsFilled := by
  refine hl.byOccupants (motive := fun id => (arena.tree id).RowsFilled) ?_ ?_ ⟨node, hn⟩
  · rw [tree_absent]
    exact .absent
  · intro id node hn ih
    rw [hl.tree_eq hn]
    refine .node (fun {location c} hm => ?_) fun c hc => ?_
    · rw [NodeKind.mem_children_iff, NodeKind.get?_map] at hm
      obtain ⟨hget, hpresent | helement⟩ := hm
      · exact hpresent
      · obtain ⟨x, hx, rfl⟩ := Option.map_eq_some_iff.1 hget
        obtain ⟨xnode, hxn, -⟩ := hl.down hn (NodeKind.mem_children_iff.2 ⟨hx, .inr helement⟩)
        rw [hl.tree_eq hxn, Tree.isPresent]
    · rw [NodeKind.occupants_map] at hc
      obtain ⟨x, hx, rfl⟩ := List.mem_map.1 hc
      exact ih x hx

/-- Nodes that match have trees that differ only in handles and source ranges. -/
theorem bare_eq_of_mismatch? {leftArena rightArena : Arena} {left right : NodeId}
    (hl : leftArena.Linked) (hr : rightArena.Linked) (hlc : leftArena.contains left = true)
    (hrc : rightArena.contains right = true)
    (h : leftArena.mismatch? left rightArena right = none) :
    (leftArena.tree left).bare = (rightArena.tree right).bare := by
  obtain ⟨lnode, hln⟩ := contains_iff.1 hlc
  obtain ⟨rnode, hrn⟩ := contains_iff.1 hrc
  rw [mismatch?, hlc, hrc] at h
  refine Tree.mapInfo_eq_of_mismatch? (hl.rowsFilled hln) (hr.rowsFilled hrn) ?_ h _
  rw [hl.tree_eq hln, hr.tree_eq hrn, Tree.isPresent, Tree.isPresent]

/-- A text that is read as the tree of a node, up to places, is read into an arena that matches. -/
theorem parseWith_of_bare {text : String} {tree : SourceTree} (hc : arena.contains id = true)
    (hsize : (arena.tree id).preorder.length ≤ NodeId.maxIndex)
    (htree : parseTreeWith wide goal text = .ok tree) (hbare : tree.bare = (arena.tree id).bare) :
    ∃ arena', parseWith wide goal text = .ok arena' ∧
      arena.mismatch? id arena' arena'.root = none ∧
      (arena'.tree arena'.root).bare = (arena.tree id).bare := by
  have hnodes : tree.preorder.length = (arena.tree id).preorder.length := by
    rw [← Tree.length_preorder_bare, hbare, Tree.length_preorder_bare]
  obtain ⟨-, arena', hok, hholds⟩ := (ofTree_cases (complete_of_parseTreeWith htree)).resolve_right
    fun hmore => Nat.not_lt.2 hsize (hnodes ▸ hmore.1)
  have hroot : (arena'.tree arena'.root).bare = (arena.tree id).bare := by
    rw [← bare_spans, hholds.spans, hbare]
  exact ⟨arena', parseWith_eq_ok.2 ⟨tree, htree, hok⟩,
    mismatch?_eq_none hc hholds.rooted hroot.symm, hroot⟩

/-- The text of a tree that the grammar describes is read as a tree that matches, and the text of
this one is the same. -/
theorem reads_back (hc : arena.contains id = true) (hd : Describes goal (arena.tree id).bare)
    (hw : ∀ w ∈ (arena.tree id).bare.words, Lexer.Lexeme wide w)
    (hn : (arena.tree id).SelectsNoNumber)
    (hsize : (arena.tree id).preorder.length ≤ NodeId.maxIndex) :
    ∃ text, (arena.tree id).render? = some text ∧ (text.utf8ByteSize ≤ maxSourceBytes →
      ∃ arena', parseWith wide goal text = .ok arena' ∧
        arena.mismatch? id arena' arena'.root = none ∧ arena'.render? = some text) := by
  obtain ⟨text, htext, hread⟩ :=
    parseTreeWith_of_describes hd hw (Tree.selectsNoNumber_mapInfo.2 hn)
  rw [Tree.render?_bare] at htext
  refine ⟨text, htext, fun hlength => ?_⟩
  obtain ⟨tree, htree, hbare⟩ := hread hlength
  obtain ⟨arena', hparse, hmatch, hroot⟩ :=
    parseWith_of_bare hc hsize htree (hbare.trans (Tree.mapInfo_mapInfo ..))
  refine ⟨arena', hparse, hmatch, ?_⟩
  rw [render?, ← Tree.render?_bare, hroot, Tree.render?_bare, htext]

/-- What was read and written is read again as a tree that matches, and written as the same text. -/
theorem parseWith_render (h : parseWith wide goal source = .ok arena)
    (hn : (arena.tree arena.root).SelectsNoNumber) :
    ∃ text, arena.render? = some text ∧ (text.utf8ByteSize ≤ maxSourceBytes →
      ∃ arena', parseWith wide goal text = .ok arena' ∧
        arena.mismatch? arena.root arena' arena'.root = none ∧ arena'.render? = some text) := by
  obtain ⟨tree, htree, hholds⟩ := holds_of_parseWith h
  have hbare : tree.bare = (arena.tree arena.root).bare := by
    rw [← hholds.spans, bare_spans]
  obtain ⟨hd, hw⟩ := describes_of_parseTreeWith htree
  refine reads_back hholds.rooted (hbare ▸ hd) (hbare ▸ hw) hn ?_
  rw [← Tree.length_preorder_bare, ← hbare, Tree.length_preorder_bare, ← hholds.size]
  exact hholds.built.linked.small

/-- A negated negation, which is written with a space in between. -/
theorem parseWith_render_negated :
    ∃ arena arena', parse .expression "f((1),-  -x)" = .ok arena ∧
      arena.render? = some "f((1), - -x)" ∧ parse .expression "f((1), - -x)" = .ok arena' ∧
      arena.mismatch? arena.root arena' arena'.root = none ∧
      arena'.render? = some "f((1), - -x)" := by
  have hread : (match parse .expression "f((1),-  -x)" with
      | .ok arena => arena.render? == some "f((1), - -x)" &&
        (arena.tree arena.root).subtrees.all fun tree => !tree.selectsNumber
      | .error _ => false) = true := by
    decide +kernel
  cases h : parse .expression "f((1),-  -x)" with
  | error error => simp [h] at hread
  | ok arena =>
    simp only [h, Bool.and_eq_true, beq_iff_eq, List.all_eq_true, Bool.not_eq_true'] at hread
    obtain ⟨text, htext, hback⟩ := parseWith_render h hread.2
    cases Option.some.inj (hread.1.symm.trans htext)
    obtain ⟨arena', hparse, hmatch, hrender⟩ := hback (by decide)
    exact ⟨arena, arena', rfl, htext, hparse, hmatch, hrender⟩

end Arena

end JavaFold
