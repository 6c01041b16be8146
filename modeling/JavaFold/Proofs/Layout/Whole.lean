import JavaFold.Proofs.Layout.Laid
import JavaFold.Proofs.Tree.Shape

/-!
# Complete trees can be written

A layout has a text exactly if it has no hole. The layout of a node has a hole only where a child is
written that is not there: a child in an optional slot is looked for first, and an element of a list
may be left out altogether. So the layout of a complete tree has no hole.
-/

namespace JavaFold

namespace Mark

/-- A layout without a hole has a text. -/
theorem exists_render? {marks : List Mark} (h : .hole ∉ marks) :
    ∃ text, render? marks = some text := by
  induction marks with
  | nil => exact ⟨"", rfl⟩
  | cons mark marks ih =>
    rw [List.mem_cons, not_or] at h
    obtain ⟨text, ht⟩ := ih h.2
    cases mark with
    | hole => exact absurd rfl h.1
    | text | space | newline | indent => exact ⟨_, render?_cons rfl ht⟩

private theorem hole_not_mem_ite {p : Prop} [Decidable p] {marks marks' : List Mark} :
    .hole ∉ (if p then marks else marks') ↔ (p → .hole ∉ marks) ∧ (¬ p → .hole ∉ marks') := by
  split <;> simp_all

end Mark

/-- A child in its place has no hole that it does not have on its own. -/
theorem Form.hole_not_mem_place {marks : List Mark} (h : .hole ∉ marks) (form : Form) (level : Nat)
    (tag? : Option Tag) : .hole ∉ form.place level tag? marks := by
  have hline : Mark.hole ∉ .indent level :: marks ++ [.newline] := by simpa using h
  have hfront : Mark.hole ∉ marks.dropLast := fun hm => h (List.dropLast_subset _ hm)
  rw [place.eq_def]
  split <;> first | exact h | exact hline | exact hfront | exact List.not_mem_nil

namespace Tree

variable {ι : Type}

private theorem hole_not_mem_marksList {trees : List (Tree ι)} {form : Form} {level : Nat}
    (h : ∀ tree ∈ trees, .hole ∉ tree.marks level) : .hole ∉ marksList form level trees := by
  induction trees with
  | nil => exact List.not_mem_nil
  | cons tree trees ih =>
    have hseparator : Mark.hole ∉ (if trees.isEmpty then [] else form.separator) := by
      split
      · exact List.not_mem_nil
      · cases form <;> simp [Form.separator]
    rw [marksList, List.mem_append, List.mem_append, not_or, not_or]
    exact ⟨⟨Form.hole_not_mem_place (h tree List.mem_cons_self) _ _ _, hseparator⟩,
      ih fun t ht => h t (List.mem_cons_of_mem _ ht)⟩

/-- What is written of a child position has no hole: a child that is there or has to be, or a
list. -/
def SlotWritten (tag : Tag) : Property × Slot (Tree ι) → Prop
  | (property, .one child) => tag.isOptional property = false ∨ child.isPresent = true →
    ∀ level, Mark.hole ∉ child.marks level
  | (_, .many children) => ∀ form level, Mark.hole ∉ marksList form level children

private theorem hole_not_mem_modifierMarks (modifiers : Modifiers) :
    .hole ∉ modifierMarks modifiers := by
  simp [modifierMarks]

private theorem hole_not_mem_operatorGap (operator : PrefixOperator) (operand : Tree ι) :
    .hole ∉ operatorGap operator operand := by
  rw [operatorGap]
  split <;> simp

/-- A node is written without a hole if its child positions are. -/
theorem hole_not_mem_marks_node {info : ι} {kind : NodeKind String (Tree ι)}
    (h : ∀ slot ∈ kind.slots, SlotWritten kind.tag slot) (level : Nat) :
    .hole ∉ (Tree.node info kind).marks level := by
  cases kind <;>
    simp only [NodeKind.slots, NodeKind.tag, SlotWritten, Tag.isOptional, List.forall_mem_cons,
      true_or, true_imp_iff, Bool.true_eq_false, false_or] at h <;>
    simp +contextual [marks, Mark.hole_not_mem_ite, Form.hole_not_mem_place,
      hole_not_mem_modifierMarks, hole_not_mem_operatorGap, h]

/-- Nothing that is missing is written where a tree is complete. -/
private theorem Complete.hole_not_mem_marks {tree : Tree ι} (h : tree.Complete) (level : Nat) :
    .hole ∉ tree.marks level := by
  induction h generalizing level with
  | @node info kind filled below ih =>
    refine hole_not_mem_marks_node ?_ level
    rintro ⟨property, slot⟩ hs
    cases slot with
    | one child =>
      intro hp level
      have hpresent : child.isPresent = true := hp.elim (filled.single hs) id
      refine ih child (NodeKind.mem_occupants_iff.2 ⟨_, NodeKind.get?_single.2 hs⟩) ?_ level
      rintro rfl
      cases hpresent
    | many children =>
      intro form level
      refine hole_not_mem_marksList fun c hc => ?_
      obtain ⟨i, hi⟩ := List.mem_iff_getElem?.1 hc
      refine ih c (NodeKind.mem_occupants_iff.2 ⟨_, NodeKind.get?_element.2 ⟨_, hs, hi⟩⟩) ?_ level
      rintro rfl
      cases filled.row hs _ hc

theorem Complete.exists_text? {tree : Tree ι} (h : tree.Complete) :
    ∃ text, tree.text? = some text :=
  Mark.exists_render? (h.hole_not_mem_marks 0)

/-- A complete tree can be written. -/
theorem Complete.exists_render? {tree : Tree ι} (h : tree.Complete) :
    ∃ text, tree.render? = some text := by
  obtain ⟨text, ht⟩ := h.exists_text?
  cases tree with
  | absent => exact ⟨"", rfl⟩
  | node info kind =>
    rw [render?.eq_def]
    split
    next he => cases he
    next => exact ⟨_, by rw [ht, Option.map_some]⟩
    next => exact ⟨text, ht⟩

end Tree

end JavaFold
