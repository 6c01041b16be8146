import JavaFold.Proofs.Grammar.Parts

/-!
# Casts that are overlooked

A parenthesized name is taken for a cast if the next word can start an operand. The lookahead does
not count the names of primitive types among such words, so that `(A) int.class` is no expression,
while `(A) (int.class)` is one. No cast in a tree that the grammar describes is of this form.
-/

namespace JavaFold.Grammar

variable {tree type operand : SourceTree} {span : Span} {kind : NodeKind String SourceTree}
  {sub : Phrases}

/-- Whether a class of tokens is a primitive type, `void` among them. -/
def isPrimitive : TokenKind → Bool
  | .keyword (.primitive _) => true
  | _ => false

/-- Whether a tree is a cast to a named type of an operand that starts with a primitive type. -/
def isOverlooked : SourceTree → Bool
  | .node _ (.castExpression type operand) =>
    !isValueType (headKind type.words) && isPrimitive (headKind operand.words)
  | _ => false

/-- No cast in a tree is overlooked. -/
def SeesCasts (tree : SourceTree) : Prop :=
  ∀ part ∈ tree.subtrees, isOverlooked part = false

theorem seesCasts_node :
    SeesCasts (.node span kind) ↔
      isOverlooked (.node span kind) = false ∧ ∀ c ∈ kind.occupants, SeesCasts c := by
  simp only [SeesCasts, Tree.subtrees_node, List.forall_mem_cons, List.forall_mem_flatMap]

private theorem isPrimitive_of_startsCastOperand {kind : TokenKind}
    (h : startsCastOperand kind = true) :
    isPrimitive kind = false := by
  unfold startsCastOperand at h
  split at h <;> first | rfl | cases h

private theorem isOverlooked_of_readsAsCast (h : ReadsAsCast type operand) :
    isOverlooked (.node span (.castExpression type operand)) = false := by
  rcases h with h | h
  · rw [isOverlooked, h]
    rfl
  · rw [isOverlooked, isPrimitive_of_startsCastOperand h, Bool.and_false]

/-! ## Casts inside expressions -/

private theorem IsUnary.readsAsCast (h : IsUnary sub (.node span (.castExpression type operand))) :
    ReadsAsCast type operand := by
  cases h with
  | cast span ht ho hc => exact hc
  | postfixed h =>
    cases h with
    | selected h =>
      cases h with
      | primary h =>
        cases h with
        | name h =>
          cases h with
          | simple h => cases h

private theorem IsBinary.readsAsCast {least : Nat}
    (h : IsBinary sub least (.node span (.castExpression type operand))) :
    ReadsAsCast type operand := by
  cases h with
  | unary h => exact h.readsAsCast

private theorem IsConditional.readsAsCast
    (h : IsConditional sub (.node span (.castExpression type operand))) :
    ReadsAsCast type operand := by
  cases h with
  | binary h => exact h.readsAsCast

private theorem Fits.readsAsCast {depth : Nat} {level : Level}
    (h : Fits depth level (.node span (.castExpression type operand))) :
    ReadsAsCast type operand := by
  cases depth with
  | zero => exact h.elim
  | succ depth =>
    cases level with
    | expression =>
      cases h with
      | conditional h => exact h.readsAsCast
    | conditional => exact IsConditional.readsAsCast h
    | binary least => exact IsBinary.readsAsCast h
    | unary => exact IsUnary.readsAsCast h

/-- A cast is found among the expressions only, where it reads as one. -/
theorem IsPart.readsAsCast (h : IsPart (.node span (.castExpression type operand))) :
    ReadsAsCast type operand := by
  cases h with
  | phrase depth level h => exact Fits.readsAsCast h
  | type h =>
    cases h with
    | element h => cases h
  | statement h =>
    obtain ⟨depth, h⟩ := h
    cases depth with
    | zero => exact h.elim
    | succ depth =>
      cases h with
      | block h | declaration h => cases h
  | member h =>
    obtain ⟨depth, h⟩ := h
    cases depth with
    | zero => exact h.elim
    | succ depth =>
      cases h with
      | type h => cases h
  | fragment h | block h | parameter h | declaration h | package h | importLine h | unit h =>
      cases h

/-- No cast is overlooked in a tree that the grammar describes. -/
theorem Describes.seesCasts {goal : Goal} (h : Describes goal tree) : SeesCasts tree := by
  intro part hp
  have hpart := h.isPart part hp
  cases part with
  | absent => rfl
  | node span kind =>
    cases kind with
    | castExpression type operand => exact isOverlooked_of_readsAsCast hpart.readsAsCast
    | _ => rfl

end JavaFold.Grammar
