import JavaFold.Interner

/-!
# Interned texts stay

Interning a text gives a handle in use whose text it is, and takes no text away from the handles
that were in use before.
-/

namespace JavaFold.Interner

variable {interner : Interner} {text : String} {name : Name}

/-- Either the text was there already, or it comes last. -/
theorem intern_cases (interner : Interner) (text : String) :
    (∃ index, interner.texts[index]? = some text ∧ interner.intern text = (⟨index⟩, interner)) ∨
      text ∉ interner.texts ∧
        interner.intern text = (⟨interner.size⟩, ⟨interner.texts.push text⟩) := by
  cases h : interner.texts.idxOf? text with
  | none => exact .inr ⟨Array.idxOf?_eq_none_iff.1 h, by rw [intern, h]⟩
  | some index =>
    refine .inl ⟨index, ?_, by rw [intern, h]⟩
    rw [Array.idxOf?, Option.map_eq_some_iff] at h
    obtain ⟨i, hi, rfl⟩ := h
    rw [Array.getElem?_eq_getElem i.isLt]
    exact congrArg some (Array.finIdxOf?_eq_some_iff.mp hi).1

theorem size_le_intern (interner : Interner) (text : String) :
    interner.size ≤ (interner.intern text).2.size := by
  rcases interner.intern_cases text with ⟨index, -, h⟩ | ⟨-, h⟩
  · exact Nat.le_of_eq (by rw [h])
  · simp [h, size]

theorem index_intern_lt (interner : Interner) (text : String) :
    (interner.intern text).1.index < (interner.intern text).2.size := by
  rcases interner.intern_cases text with ⟨index, hi, h⟩ | ⟨-, h⟩
  · rw [h]
    exact (Array.getElem?_eq_some_iff.mp hi).1
  · simp [h, size]

/-- The handle of a text is looked up as the text. -/
theorem lookup_intern (interner : Interner) (text : String) :
    (interner.intern text).2.lookup (interner.intern text).1 = text := by
  rcases interner.intern_cases text with ⟨index, hi, h⟩ | ⟨-, h⟩
  · simp [h, lookup, Array.getD_eq_getD_getElem?, hi]
  · simp [h, lookup, Array.getD_eq_getD_getElem?, size]

/-- Handles in use keep their texts. -/
theorem lookup_intern_of_lt (h : name.index < interner.size) :
    (interner.intern text).2.lookup name = interner.lookup name := by
  rcases interner.intern_cases text with ⟨index, -, he⟩ | ⟨-, he⟩
  · rw [he]
  · have hne : name.index ≠ interner.texts.size := Nat.ne_of_lt h
    simp only [he, lookup, Array.getD_eq_getD_getElem?, Array.getElem?_push, if_neg hne]

end JavaFold.Interner
