import JavaFold.Proofs.Grammar.Phrase

/-!
# The front of an expression

A cast is told from a parenthesis, and a declaration from an expression, by a scan over what reads
as a type. Here it is shown where the scan ends: over a type it ends where the type ends, and over
an expression other than a name it ends at a word that neither closes a parenthesis nor names a
variable.
-/

namespace JavaFold.Grammar

open Cursor

variable {ws rest : List Word} {tree name type : SourceTree} {sub : Phrases}

/-! ## The first word -/

/-- The first word is the same whatever follows. -/
theorem headKind_append_of_ne_nil (h : ws ≠ []) : headKind (ws ++ rest) = headKind ws := by
  cases ws with
  | nil => exact absurd rfl h
  | cons w ws => rfl

/-- A name starts with an identifier. -/
theorem IsName.words_eq (h : IsName name) :
    ∃ text ws, name.words = .identifier text :: ws := by
  induction h with
  | simple h =>
    obtain ⟨span, text⟩ := h
    exact ⟨text, [], rfl⟩
  | qualified span hq hn ih =>
    obtain ⟨text, ws, hw⟩ := ih
    exact ⟨text, _, by rw [Tree.words, hw, List.cons_append]⟩

/-- A type starts with an identifier or the keyword of a primitive type. -/
theorem IsType.words_eq {allowVoid : Bool} (h : IsType allowVoid type) :
    (∃ text ws, type.words = .identifier text :: ws) ∨
      ∃ primitive ws, type.words = .keyword (.primitive primitive) :: ws ∧
        (primitive = .void → allowVoid = true) := by
  induction h with
  | element h =>
    cases h with
    | primitive span hv => exact .inr ⟨_, [], rfl, hv⟩
    | named span hn => exact .inl hn.words_eq
  | array span h ih =>
    rcases ih with ⟨text, ws, hw⟩ | ⟨primitive, ws, hw, hv⟩
    · exact .inl ⟨text, _, by rw [Tree.words, hw, List.cons_append]⟩
    · exact .inr ⟨primitive, _, by rw [Tree.words, hw, List.cons_append], hv⟩

/-- A type has a word. -/
theorem IsType.words_ne_nil {allowVoid : Bool} (h : IsType allowVoid type) : type.words ≠ [] := by
  rcases h.words_eq with ⟨_, _, hw⟩ | ⟨_, _, hw, _⟩ <;> rw [hw] <;> exact List.cons_ne_nil _ _

/-- A type is not missing. -/
theorem IsType.isPresent {allowVoid : Bool} (h : IsType allowVoid type) :
    type.isPresent = true := by
  cases type with
  | absent => exact absurd rfl h.words_ne_nil
  | node => rfl

/-! ## The scan over a type -/

private theorem skipType_name (h : IsName name) (rest : List Word) :
    skipType (name.words ++ rest) = some (skipDimensions (skipQualifiers rest)) := by
  induction h generalizing rest with
  | simple h =>
    obtain ⟨span, text⟩ := h
    rfl
  | qualified span hq hn ih =>
    obtain ⟨span', text⟩ := hn
    rw [Tree.words, Tree.words, List.append_assoc, List.cons_append, List.singleton_append, ih,
      skipQualifiers]

/-- The scan over a type ends where the type ends. -/
theorem skipType_type {allowVoid : Bool} (h : IsType allowVoid type) (hrest : StopsName rest) :
    skipType (type.words ++ rest) =
      if headKind type.words = .keyword (.primitive .void) then none
      else some (skipDimensions rest) := by
  induction h generalizing rest with
  | element h =>
    cases h with
    | primitive span hv => simp [Tree.words, skipType, Word.kind]
    | named span hn =>
      obtain ⟨text, ws, hw⟩ := hn.words_eq
      rw [Tree.words, skipType_name hn, skipQualifiers_of_stops hrest, if_neg]
      simp [hw, Word.kind]
  | array span h ih =>
    have hne := h.words_ne_nil
    rw [Tree.words, List.append_assoc, ih (by simp [StopsName, Word.kind]), List.cons_append,
      List.singleton_append, skipDimensions, headKind_append_of_ne_nil hne]

/-- Reading ahead over a name as over a type stops behind it, where neither a point nor a pair of
brackets goes on. -/
theorem skipType_name_cons {w : Word} (h : IsName name) (hd : w.kind ≠ .punctuator .dot)
    (hb : StopsDimensions (w :: rest)) : skipType (name.words ++ w :: rest) = some (w :: rest) := by
  have hq : StopsName (w :: rest) := stopsName_of_head hd
  rw [skipType_name h, skipQualifiers_of_stops hq, skipDimensions_of_stops hb]

/-- Reading ahead over a type stops behind it, where neither a point nor a pair of brackets goes on.
-/
theorem skipType_type_cons {w : Word} (h : IsType false type) (hd : w.kind ≠ .punctuator .dot)
    (hb : StopsDimensions (w :: rest)) : skipType (type.words ++ w :: rest) = some (w :: rest) := by
  have hq : StopsName (w :: rest) := stopsName_of_head hd
  have hvoid : headKind type.words ≠ .keyword (.primitive .void) := by
    rcases h.words_eq with ⟨_, _, hw⟩ | ⟨_, _, hw, hv⟩
    · rw [hw]
      rintro ⟨⟩
    · rw [hw]
      intro he
      cases he
      cases hv rfl
  rw [skipType_type h hq, if_neg hvoid, skipDimensions_of_stops hb]

/-- Words start a cast if they go on with a type, a closing parenthesis and an operand. -/
theorem startsCast_of_skipType {w : Word} {ws : List Word}
    (h : skipType ws = some (.punctuator .rparen :: rest)) :
    startsCast (w :: ws) = (isValueType (headKind ws) || startsCastOperand (headKind rest)) := by
  rw [startsCast, h]

/-! ## The scan over an expression -/

/-- Whether a token is the first one of a type. -/
def startsType : TokenKind → Bool
  | .identifier | .keyword (.primitive _) => true
  | _ => false

/-- Whether a token after a name goes on with it as with a type, or is one that a cast or a
declaration has after its type. -/
def followsType : TokenKind → Bool
  | .identifier | .punctuator .dot | .punctuator .lbracket | .punctuator .rparen => true
  | _ => false

private theorem ne_of_followsType {a b : TokenKind} (ha : followsType a = false)
    (hb : followsType b = true) : a ≠ b := by
  rintro rfl
  rw [ha] at hb
  cases hb

/-- Words that start with neither a name nor a primitive type do not read as a type. -/
theorem noType_of_head (hs : startsType (headKind ws) = false) : NoType ws := by
  have hnone : skipType ws = none := by
    unfold skipType
    split
    · cases hs
    · cases hs
    · rfl
  intro rest h
  rw [hnone] at h
  cases h

/-- A name is not read as a type in a cast or a declaration if something else follows it. -/
theorem IsName.noType {w : Word} (h : IsName name) (hd : w.kind ≠ .punctuator .dot)
    (hb : StopsDimensions (w :: rest)) (hr : w.kind ≠ .punctuator .rparen)
    (hi : w.kind ≠ .identifier) : NoType (name.words ++ w :: rest) := by
  intro rest' hs
  rw [skipType_name_cons h hd hb] at hs
  cases hs
  exact ⟨hr, hi⟩

/-- An expression is not read as a type in a cast or a declaration if an operator follows it. -/
theorem Opens.noType_append {w : Word} (h : Opens tree) (hw : followsType w.kind = false) :
    NoType (tree.words ++ w :: rest) := by
  by_cases hn : IsName tree
  · exact hn.noType (ne_of_followsType hw rfl) (stopsDimensions_of_head (ne_of_followsType hw rfl))
      (ne_of_followsType hw rfl) (ne_of_followsType hw rfl)
  · exact h.noType hn _

/-- An expression has a word. -/
theorem Opens.words_ne_nil (h : Opens tree) : tree.words ≠ [] := by
  intro hw
  have := h.head
  rw [hw] at this
  cases this

/-- An expression is not missing. -/
theorem Opens.isPresent (h : Opens tree) : tree.isPresent = true := by
  cases tree with
  | absent => exact absurd rfl h.words_ne_nil
  | node => rfl

/-- The first word of an expression is the same whatever follows. -/
theorem Opens.headKind_append (h : Opens tree) (rest : List Word) :
    headKind (tree.words ++ rest) = headKind tree.words :=
  headKind_append_of_ne_nil h.words_ne_nil

/-! ## Every level -/

/-- A name starts with an identifier, and it is the one expression that may read as a type. -/
theorem IsName.opens (h : IsName name) : Opens name := by
  obtain ⟨text, ws, hw⟩ := h.words_eq
  exact ⟨by rw [hw]; rfl, fun hn => absurd h hn⟩

/-- An expression that starts with neither a name nor a primitive type. -/
theorem Opens.of_head {w : Word} {ws : List Word} (hw : tree.words = w :: ws)
    (hs : startsExpression w.kind = true) (ht : startsType w.kind = false) : Opens tree := by
  refine ⟨by rw [hw]; exact hs, fun _ rest => ?_⟩
  rw [hw, List.cons_append]
  exact noType_of_head ht

/-- An expression that starts with another one and goes on with an operator. -/
theorem Opens.of_left {left : SourceTree} {w : Word} {ws : List Word} (h : Opens left)
    (hw : tree.words = left.words ++ w :: ws) (hf : followsType w.kind = false) :
    Opens tree := by
  refine ⟨by rw [hw, h.headKind_append]; exact h.head, fun _ rest => ?_⟩
  rw [hw, List.append_assoc, List.cons_append]
  exact h.noType_append hf

/-- An operand starts as an expression does; a type literal goes on with `class`, which no type
does. -/
theorem IsPrimary.opens (h : IsPrimary sub tree) : Opens tree := by
  cases h with
  | number | character | string | null | this =>
    exact .of_head rfl rfl rfl
  | boolean span value => cases value <;> exact .of_head rfl rfl rfl
  | parenthesized | creation => exact .of_head rfl rfl rfl
  | typeLiteral span ht =>
    refine ⟨?_, fun _ rest => ?_⟩
    · rw [Tree.words, headKind_append_of_ne_nil ht.words_ne_nil]
      rcases ht.words_eq with ⟨_, _, hw⟩ | ⟨_, _, hw, _⟩ <;> rw [hw] <;> rfl
    · have hclass : StopsName (.punctuator .dot :: .keyword .classWord :: rest) := by
        rintro - ⟨⟩
      have hdims : StopsDimensions (.punctuator .dot :: .keyword .classWord :: rest) :=
        stopsDimensions_of_head (by rintro ⟨⟩)
      intro rest' hs
      rw [Tree.words, List.append_assoc, List.cons_append, List.cons_append, List.nil_append,
        skipType_type ht hclass, skipDimensions_of_stops hdims] at hs
      split at hs
      · cases hs
      · cases hs
        exact ⟨by rintro ⟨⟩, by rintro ⟨⟩⟩
  | call span hn ha =>
    refine ⟨?_, fun _ rest => ?_⟩
    · obtain ⟨span, text⟩ := hn
      rfl
    · simp only [Tree.words, Tree.isPresent, Bool.false_eq_true, if_false, List.nil_append,
        List.append_assoc, List.cons_append]
      exact (IsName.simple hn).opens.noType_append rfl
  | name h => exact h.opens

/-- A selection starts as its operand does, and its selectors do not read as a type: a call has a
parenthesis that opens, an element an index. -/
theorem IsSelected.opens (hsub : Regular sub) (h : IsSelected sub tree) : Opens tree := by
  induction h with
  | primary h => exact h.opens
  | field span ho hno hn ih =>
    refine ⟨by rw [Tree.words, ih.headKind_append]; exact ih.head, fun _ rest => ?_⟩
    rw [Tree.words, List.append_assoc]
    exact ih.noType hno _
  | @call span operand name arguments ho hn ha ih =>
    have hp := ih.isPresent
    refine ⟨?_, fun _ rest => ?_⟩
    · simp only [Tree.words, if_pos hp, List.append_assoc]
      rw [ih.headKind_append]
      exact ih.head
    · rw [Tree.words, if_pos hp]
      by_cases hno : IsName operand
      · -- the call reads as a longer name that an argument list follows
        have hq : IsName (.node span (.qualifiedName operand name)) := .qualified span hno hn
        have hcall : NoType ((Tree.node span (.qualifiedName operand name)).words ++
            .punctuator .lparen :: (Tree.wordsRow .plain arguments ++
              .punctuator .rparen :: rest)) :=
          hq.opens.noType_append rfl
        simpa [Tree.words] using hcall
      · have := ih.noType hno (.punctuator .dot :: name.words ++
          .punctuator .lparen :: Tree.wordsRow .plain arguments ++ [.punctuator .rparen] ++ rest)
        simpa using this
  | @element span operand index ho hi ih =>
    refine ⟨?_, fun _ rest => ?_⟩
    · rw [Tree.words, List.append_assoc, ih.headKind_append]
      exact ih.head
    · have hindex := hsub _ _ hi
      simp only [Tree.words, List.append_assoc, List.cons_append]
      by_cases hno : IsName operand
      · refine hno.noType (by rintro ⟨⟩) (fun _ => ?_) (by rintro ⟨⟩) (by rintro ⟨⟩)
        rw [List.tail_cons, hindex.headKind_append]
        intro he
        have := hindex.head
        rw [he] at this
        cases this
      · exact ih.noType hno _

/-- A postfix operation starts as its operand does. -/
theorem IsPostfixed.opens (hsub : Regular sub) (h : IsPostfixed sub tree) : Opens tree := by
  induction h with
  | selected h => exact h.opens hsub
  | operator span operator h ih =>
    cases operator <;> exact ih.of_left rfl rfl

/-- A prefix operation or cast starts with neither a name nor a primitive type. -/
theorem IsUnary.opens (hsub : Regular sub) (h : IsUnary sub tree) : Opens tree := by
  cases h with
  | operator span operator h => cases operator <;> exact .of_head rfl rfl rfl
  | cast => exact .of_head rfl rfl rfl
  | postfixed h => exact h.opens hsub

/-- An infix operation starts as its left operand does. -/
theorem IsBinary.opens (hsub : Regular sub) {least : Nat} (h : IsBinary sub least tree) :
    Opens tree := by
  induction h with
  | unary h => exact h.opens hsub
  | infixed span operator hl hp ha hr ih =>
    cases operator <;> exact ih.of_left rfl rfl
  | instanceof span hl hp ha ht ih => exact ih.of_left rfl rfl

/-- A conditional starts as its condition does. -/
theorem IsConditional.opens (hsub : Regular sub) (h : IsConditional sub tree) : Opens tree := by
  cases h with
  | binary h => exact h.opens hsub
  | @choice span condition thenExpression elseExpression hc ht he =>
    have hw : (Tree.node span (.conditionalExpression condition thenExpression
        elseExpression)).words = condition.words ++ .punctuator .question ::
            (thenExpression.words ++
          .punctuator .colon :: elseExpression.words) := by
      simp only [Tree.words, List.append_assoc, List.cons_append]
    exact (hc.opens hsub).of_left hw rfl

/-- An assignment starts as its target does. -/
theorem IsAssignment.opens (hsub : Regular sub) (h : IsAssignment sub tree) : Opens tree := by
  cases h with
  | conditional h => exact h.opens hsub
  | assignment span operator hl hr =>
    have := hl.opens hsub
    cases operator <;> exact this.of_left rfl rfl

/-- The front of an expression is as it should be one level further out. -/
theorem Regular.next (hsub : Regular sub) : Regular sub.next := by
  intro level tree h
  cases level with
  | expression => exact IsAssignment.opens hsub h
  | conditional => exact IsConditional.opens hsub h
  | binary least => exact IsBinary.opens hsub h
  | unary => exact IsUnary.opens hsub h

/-- The front of an expression of any level is as it should be. -/
theorem regular_fits (depth : Nat) : Regular (Fits depth) := by
  induction depth with
  | zero => exact fun _ _ h => h.elim
  | succ depth ih => exact ih.next

/-- An expression starts as one, whatever its depth. -/
theorem IsExpression.opens (h : IsExpression tree) : Opens tree := by
  obtain ⟨depth, h⟩ := h
  exact regular_fits depth _ _ h

end JavaFold.Grammar
