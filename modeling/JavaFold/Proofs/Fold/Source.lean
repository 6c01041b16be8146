import JavaFold.Fold.Catalogue
import JavaFold.Proofs.Arena.RoundTrip
import JavaFold.Proofs.Fold.FixedPoint
import JavaFold.Proofs.Grammar.Collapse

/-!
# Folding what was read

The known rules lead from a tree that was read to one that is read back from its text, with one
exception: a literal that has lost its parentheses can come to stand right after a cast, and the
lookahead overlooks a cast to a named type before a primitive one. So `(A) (int.class)` is folded
into `(A) int.class`, which is refused.
-/

namespace JavaFold

private theorem Catalogue.rulesWithout_nil : rulesWithout [] = .ok
    [ParenthesizedLiteral.rule] := rfl

namespace Arena

open Grammar ParenthesizedLiteral

variable {wide : Char → Bool} {goal : Goal} {source : String} {arena folded : Arena}
  {tree : SourceTree}

/-- What folding leaves of a tree that was read. -/
structure FoldedFrom (tree : SourceTree) (folded : Arena) : Prop where
  /-- The links agree. -/
  linked : folded.Linked
  /-- The root is a node. -/
  rooted : folded.contains folded.root = true
  /-- The tree under the root has lost the parentheses around literals. -/
  bare : (folded.tree folded.root).bare = tree.bare.collapse

/-- If there are handles for what the rule copies, the driver folds the whole tree. -/
theorem Holds.exists_folded (h : arena.Holds tree) (hcomplete : tree.Complete)
    (hs : ((rewrite arena.root).after arena).size ≤ NodeId.maxIndex) :
    ∃ report folded, (Rule.toFixedPoint [rule] Rule.defaultMaxRounds arena.root).run arena =
      .ok report folded ∧ report.root = folded.root ∧ FoldedFrom tree folded := by
  obtain ⟨node, hn⟩ := contains_iff.1 h.rooted
  have hhole : (arena.spans arena.root).hasHole = false := h.spans ▸ hcomplete.hasHole
  obtain ⟨report, folded, hrun, hl, hc, hroot, hspans⟩ :=
    exists_run_toFixedPoint h.built.linked hn (.inl rfl) hhole hs 62
  have hroot := hroot rfl
  rw [hroot] at hc hspans
  refine ⟨report, folded, hrun, hroot, hl, hc, ?_⟩
  rw [← bare_spans, hspans, h.spans, Tree.bare, Tree.bare, Tree.collapse_mapInfo]

/-- If no cast is overlooked, what is left of a tree is read back from its text. -/
theorem FoldedFrom.reads_back (h : FoldedFrom tree folded)
    (ht : parseTreeWith wide goal source = .ok tree)
    (hsize : tree.preorder.length ≤ NodeId.maxIndex)
    (hcasts : SeesCasts (folded.tree folded.root).bare)
    (hn : (folded.tree folded.root).SelectsNoNumber) :
    ∃ text, folded.render? = some text ∧ (text.utf8ByteSize ≤ maxSourceBytes →
      ∃ again, parseWith wide goal text = .ok again ∧
        folded.mismatch? folded.root again again.root = none) := by
  obtain ⟨hd, hw⟩ := describes_of_parseTreeWith ht
  have hd' : Describes goal (folded.tree folded.root).bare := by
    rw [h.bare] at hcasts ⊢
    exact collapsible_describes goal _ hd hcasts
  have hw' : ∀ w ∈ (folded.tree folded.root).bare.words, Lexer.Lexeme wide w := by
    rw [h.bare]
    exact fun w hm => hw w ((Tree.words_collapse_sublist tree.bare).subset hm)
  have hsize' : (folded.tree folded.root).preorder.length ≤ NodeId.maxIndex := by
    rw [← Tree.length_preorder_bare, h.bare]
    refine Nat.le_trans (Tree.preorder_collapse_sublist tree.bare).length_le ?_
    rwa [Tree.length_preorder_bare]
  obtain ⟨text, htext, hback⟩ := Arena.reads_back h.rooted hd' hw' hn hsize'
  refine ⟨text, htext, fun hlength => ?_⟩
  obtain ⟨again, hparse, hmatch, -⟩ := hback hlength
  exact ⟨again, hparse, hmatch⟩

/-- No cast is overlooked in a tree that matches one that was read. -/
theorem FoldedFrom.seesCasts {text : String} {again : Arena} (h : FoldedFrom tree folded)
    (hparse : parseWith wide goal text = .ok again)
    (hmatch : folded.mismatch? folded.root again again.root = none) :
    SeesCasts (folded.tree folded.root).bare := by
  obtain ⟨tree', ht', hholds⟩ := holds_of_parseWith hparse
  rw [bare_eq_of_mismatch? h.linked hholds.built.linked h.rooted hholds.rooted hmatch, ← bare_spans,
    hholds.spans]
  exact (describes_of_parseTreeWith ht').1.seesCasts

/-- Folding from the root of what was read, with the known rules. As long as there are handles, the
driver comes to its end. Whenever it does, it ends at the root, and if no cast is overlooked in the
tree that is left and no member is selected from a number, the text of this tree is read as a tree
that matches. If a cast is overlooked in it, no text is read as a tree that matches. -/
theorem parseWith_fold (h : parseWith wide goal source = .ok arena) {rules : List Rule}
    (hrules : Catalogue.rulesWithout [] = .ok rules) :
    (((Rule.toFixedPoint rules Rule.defaultMaxRounds arena.root).after arena).size ≤
        NodeId.maxIndex →
      ∃ report folded,
        (Rule.toFixedPoint rules Rule.defaultMaxRounds arena.root).run arena = .ok report folded) ∧
    ∀ report folded,
      (Rule.toFixedPoint rules Rule.defaultMaxRounds arena.root).run arena = .ok report folded →
      report.root = folded.root ∧
      (SeesCasts (folded.tree folded.root).bare → (folded.tree folded.root).SelectsNoNumber →
        ∃ text, folded.render? = some text ∧ (text.utf8ByteSize ≤ maxSourceBytes →
          ∃ again, parseWith wide goal text = .ok again ∧
            folded.mismatch? report.root again again.root = none)) ∧
      (¬ SeesCasts (folded.tree folded.root).bare → ∀ text again,
        parseWith wide goal text = .ok again →
          folded.mismatch? report.root again again.root ≠ none) := by
  cases Except.ok.inj (Catalogue.rulesWithout_nil.symm.trans hrules)
  obtain ⟨tree, ht, hholds⟩ := holds_of_parseWith h
  have hcomplete := complete_of_parseTreeWith ht
  have hl := hholds.built.linked
  obtain ⟨node, hn⟩ := contains_iff.1 hholds.rooted
  have hcheck := checkFoldRoot_eq_ok hl hn (.inl rfl)
  refine ⟨fun hs => ?_, fun report folded hrun => ?_⟩
  · obtain ⟨report, folded, hrun, -⟩ := hholds.exists_folded hcomplete
      (Nat.le_trans (size_after_rewrite_le hcheck) hs)
    exact ⟨report, folded, hrun⟩
  · obtain ⟨_, _, hrun', hroot, hfolded⟩ := hholds.exists_folded hcomplete
      (size_after_rewrite_le_of_run hl hcheck hrun)
    cases hrun'.symm.trans hrun
    rw [hroot]
    refine ⟨rfl, fun hcasts hn => ?_, fun hlost text again hparse hmatch => ?_⟩
    · exact hfolded.reads_back ht (hholds.size ▸ hl.small) hcasts hn
    · exact hlost (hfolded.seesCasts hparse hmatch)

/-- A call with a cast, whose operand is a literal and is read as one without its parentheses. -/
theorem parseWith_fold_call :
    ∃ arena report folded again, parse .expression "f((1),(A) (\"\"))" = .ok arena ∧
      (Rule.toFixedPoint [rule] Rule.defaultMaxRounds arena.root).run arena = .ok report folded ∧
      report.root = folded.root ∧ folded.render? = some "f(1, (A) \"\")" ∧
      parse .expression "f(1, (A) \"\")" = .ok again ∧
      folded.mismatch? report.root again again.root = none := by
  have hread : (match parse .expression "f((1),(A) (\"\"))" with
      | .ok arena =>
        match (Rule.toFixedPoint [rule] Rule.defaultMaxRounds arena.root).run arena with
        | .ok _ folded =>
          folded.render? == some "f(1, (A) \"\")" &&
            (folded.tree folded.root).bare.subtrees.all (fun part => !isOverlooked part) &&
            (folded.tree folded.root).subtrees.all fun part => !part.selectsNumber
        | _ => false
      | .error _ => false) = true := by
    decide +kernel
  cases h : parse .expression "f((1),(A) (\"\"))" with
  | error error => simp [h] at hread
  | ok arena =>
    simp only [h] at hread
    cases hrun : (Rule.toFixedPoint [rule] Rule.defaultMaxRounds arena.root).run arena with
    | error error last => simp [hrun] at hread
    | ok report folded =>
      simp only [hrun, Bool.and_eq_true, beq_iff_eq, List.all_eq_true, Bool.not_eq_true'] at hread
      obtain ⟨⟨hrender, hcasts⟩, hnumbers⟩ := hread
      obtain ⟨hroot, hback, -⟩ :=
        (parseWith_fold h Catalogue.rulesWithout_nil).2 report folded hrun
      obtain ⟨text, htext, hagain⟩ := hback hcasts hnumbers
      cases Option.some.inj (hrender.symm.trans htext)
      obtain ⟨again, hparse, hmatch⟩ := hagain (by decide)
      exact ⟨arena, report, folded, again, rfl, hrun, hroot, hrender, hparse, hmatch⟩

/-- A class literal of a primitive type, cast to a named type. What is left without the parentheses
is refused. -/
theorem parse_folded_cast_refused :
    ∃ rules arena report folded error, Catalogue.rulesWithout [] = .ok rules ∧
      parse .expression "(A) (int.class)" = .ok arena ∧
      (Rule.toFixedPoint rules Rule.defaultMaxRounds arena.root).run arena = .ok report folded ∧
      (folded.tree folded.root).SelectsNoNumber ∧ folded.render? = some "(A) int.class" ∧
      "(A) int.class".utf8ByteSize ≤ maxSourceBytes ∧
      parse .expression "(A) int.class" = .error error := by
  have hread : (match parse .expression "(A) (int.class)" with
      | .ok arena =>
        match (Rule.toFixedPoint [rule] Rule.defaultMaxRounds arena.root).run arena with
        | .ok _ folded =>
          folded.render? == some "(A) int.class" &&
            (folded.tree folded.root).subtrees.all fun part => !part.selectsNumber
        | _ => false
      | .error _ => false) = true := by
    decide +kernel
  have hrefused : (match parse .expression "(A) int.class" with
      | .ok _ => false
      | .error _ => true) = true := by
    decide +kernel
  cases h : parse .expression "(A) (int.class)" with
  | error error => simp [h] at hread
  | ok arena =>
    simp only [h] at hread
    cases hrun : (Rule.toFixedPoint [rule] Rule.defaultMaxRounds arena.root).run arena with
    | error error last => simp [hrun] at hread
    | ok report folded =>
      simp only [hrun, Bool.and_eq_true, beq_iff_eq, List.all_eq_true, Bool.not_eq_true'] at hread
      cases hagain : parse .expression "(A) int.class" with
      | ok again => simp [hagain] at hrefused
      | error error =>
        exact ⟨_, arena, report, folded, error, Catalogue.rulesWithout_nil, rfl, hrun, hread.2,
          hread.1, by decide, rfl⟩

end Arena

end JavaFold
