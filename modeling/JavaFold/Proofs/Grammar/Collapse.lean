import JavaFold.Proofs.Grammar.Cast
import JavaFold.Proofs.Grammar.Front
import JavaFold.Proofs.Tree.Collapse

/-!
# What the grammar describes, without parentheses around literals

A literal can stand wherever a parenthesized expression can, so taking parentheses around literals
away leads from a tree that the grammar describes to another one, with one exception: a cast is told
from a parenthesized expression by the word after it, which can be another one then. Apart from that
no class of the grammar looks at what a child starts with.
-/

namespace JavaFold

namespace Grammar

variable {tree name type : SourceTree} {span : Span} {kind : NodeKind String SourceTree}

private theorem collapse_of_tag_ne (h : kind.tag ≠ .parenthesizedExpression) :
    Tree.collapse (.node span kind) = .node span (kind.map id Tree.collapse) :=
  (Tree.collapse_node span kind).trans (Tree.collapseNode_of_tag_ne (by rwa [NodeKind.tag_map]))

/-- A child of a node that stays is collapsed with it. -/
theorem SeesCasts.of_collapse {c : SourceTree}
    (h : SeesCasts (Tree.collapse (.node span kind)))
    (ht : kind.tag ≠ .parenthesizedExpression) (hc : c ∈ kind.occupants) :
    SeesCasts c.collapse := by
  rw [collapse_of_tag_ne ht, seesCasts_node, NodeKind.occupants_map] at h
  exact h.2 _ (List.mem_map_of_mem hc)

/-! ## Names, types and literals -/

private theorem IsSimpleName.collapse_eq (h : IsSimpleName tree) : tree.collapse = tree := by
  obtain ⟨span, text⟩ := h
  rfl

/-- A name of one word has nothing to take away. -/
theorem IsSimpleName.collapse (h : IsSimpleName tree) : IsSimpleName tree.collapse :=
  h.collapse_eq.symm ▸ h

private theorem IsName.collapse_eq (h : IsName tree) : tree.collapse = tree := by
  induction h with
  | simple h => exact h.collapse_eq
  | @qualified span qualifier name hq hn ih =>
    change Tree.node span (.qualifiedName qualifier.collapse name.collapse) = _
    rw [ih, hn.collapse_eq]

/-- A name has nothing to take away. -/
theorem IsName.collapse (h : IsName tree) : IsName tree.collapse :=
  h.collapse_eq.symm ▸ h

private theorem IsType.collapse_eq {allowVoid : Bool} (h : IsType allowVoid tree) :
    tree.collapse = tree := by
  induction h with
  | element h =>
    cases h with
    | primitive => rfl
    | @named span name h =>
      change Tree.node span (.simpleType name.collapse) = _
      rw [h.collapse_eq]
  | @array span component h ih =>
    change Tree.node span (.arrayType component.collapse) = _
    rw [ih]

/-- A type has nothing to take away. -/
theorem IsType.collapse {allowVoid : Bool} (h : IsType allowVoid tree) :
    IsType allowVoid tree.collapse :=
  h.collapse_eq.symm ▸ h

/-- A literal. -/
inductive IsLiteral : SourceTree → Prop where
  | number (span : Span) (text : String) : IsLiteral (.node span (.numberLiteral text))
  | character (span : Span) (text : String) : IsLiteral (.node span (.characterLiteral text))
  | string (span : Span) (text : String) : IsLiteral (.node span (.stringLiteral text))
  | boolean (span : Span) (value : Bool) : IsLiteral (.node span (.booleanLiteral value))
  | null (span : Span) : IsLiteral (.node span .nullLiteral)
  | type (span : Span) {type : SourceTree} (h : IsType true type) :
    IsLiteral (.node span (.typeLiteral type))

/-- A literal may stand wherever an operand may. -/
theorem IsLiteral.isPrimary {sub : Phrases} (h : IsLiteral tree) : IsPrimary sub tree := by
  cases h with
  | number => exact .number _ _
  | character => exact .character _ _
  | string => exact .string _ _
  | boolean => exact .boolean _ _
  | null => exact .null _
  | type span h => exact .typeLiteral span h

/-- A node with children in the end has had them from the start. -/
theorem kind_of_collapse {kind' : NodeKind String SourceTree}
    (h : tree.collapse = .node span kind') (hl : kind'.tag.isLiteral = false) :
    ∃ kind, tree = .node span kind ∧ kind' = kind.map id Tree.collapse := by
  cases tree with
  | absent => cases h
  | node info kind =>
    rcases Tree.collapse_cases info kind with ⟨-, he⟩ | ⟨inner, rfl, ⟨hends, he⟩ | ⟨-, he⟩⟩
    · rw [h] at he
      cases he
      exact ⟨kind, rfl, rfl⟩
    · have hliteral : inner.collapse.isLiteral = true := (Tree.isLiteral_collapse inner).trans hends
      rw [← he, h] at hliteral
      cases hl.symm.trans hliteral
    · rw [h] at he
      cases he
      exact ⟨_, rfl, rfl⟩

private theorem IsSimpleName.of_collapse (h : IsSimpleName tree.collapse) : IsSimpleName tree := by
  obtain ⟨collapsed, he⟩ : ∃ collapsed, tree.collapse = collapsed := ⟨_, rfl⟩
  rw [he] at h
  obtain ⟨span, text⟩ := h
  obtain ⟨kind, rfl, hkind⟩ := kind_of_collapse he rfl
  cases kind with
  | simpleName text => exact .intro span text
  | _ => cases hkind

/-- A name is what it was before. -/
theorem IsName.of_collapse (h : IsName tree.collapse) : IsName tree := by
  obtain ⟨collapsed, he⟩ : ∃ collapsed, tree.collapse = collapsed := ⟨_, rfl⟩
  rw [he] at h
  induction h generalizing tree with
  | simple h => exact .simple (he ▸ h).of_collapse
  | qualified span hq hn ih =>
    obtain ⟨kind, rfl, hkind⟩ := kind_of_collapse he rfl
    cases kind with
    | qualifiedName qualifier name =>
      cases hkind
      exact .qualified span (ih rfl) hn.of_collapse
    | _ => cases hkind

/-! ## Expressions -/

section Expressions

variable {sub : Phrases}

/-- Classes whose literals are literals. -/
def LiteralPhrases (sub : Phrases) : Prop :=
  ∀ level tree, sub level tree → tree.isLiteral = true → IsLiteral tree

/-- Among the operands the literals are told by their tag. -/
theorem IsPrimary.literal (h : IsPrimary sub tree) (hl : tree.isLiteral = true) :
    IsLiteral tree := by
  cases h with
  | number => exact .number _ _
  | character => exact .character _ _
  | string => exact .string _ _
  | boolean => exact .boolean _ _
  | null => exact .null _
  | typeLiteral span h => exact .type span h
  | this | parenthesized | creation | call => cases hl
  | name h => cases h with
    | simple h => cases h; cases hl
    | qualified => cases hl

/-- A selection is no literal unless it selects nothing. -/
theorem IsSelected.literal (h : IsSelected sub tree) (hl : tree.isLiteral = true) :
    IsLiteral tree := by
  cases h with
  | primary h => exact h.literal hl
  | field | call | element => cases hl

/-- A postfix operation is no literal. -/
theorem IsPostfixed.literal (h : IsPostfixed sub tree) (hl : tree.isLiteral = true) :
    IsLiteral tree := by
  cases h with
  | selected h => exact h.literal hl
  | operator => cases hl

/-- A prefix operation or cast is no literal. -/
theorem IsUnary.literal (h : IsUnary sub tree) (hl : tree.isLiteral = true) : IsLiteral tree := by
  cases h with
  | postfixed h => exact h.literal hl
  | operator | cast => cases hl

/-- An infix operation is no literal. -/
theorem IsBinary.literal {least : Nat} (h : IsBinary sub least tree)
    (hl : tree.isLiteral = true) : IsLiteral tree := by
  cases h with
  | unary h => exact h.literal hl
  | infixed | instanceof => cases hl

/-- A conditional is no literal. -/
theorem IsConditional.literal (h : IsConditional sub tree) (hl : tree.isLiteral = true) :
    IsLiteral tree := by
  cases h with
  | binary h => exact h.literal hl
  | choice => cases hl

/-- An assignment is no literal. -/
theorem IsAssignment.literal (h : IsAssignment sub tree) (hl : tree.isLiteral = true) :
    IsLiteral tree := by
  cases h with
  | conditional h => exact h.literal hl
  | assignment => cases hl

private theorem literalPhrases_next (sub : Phrases) : LiteralPhrases sub.next := by
  intro level tree h
  cases level with
  | expression => exact IsAssignment.literal h
  | conditional => exact IsConditional.literal h
  | binary least => exact IsBinary.literal h
  | unary => exact IsUnary.literal h

/-- Words that start as an operand of a cast does, or with a primitive type. -/
def StartsOperand (ws : List Word) : Prop :=
  startsCastOperand (headKind ws) = true ∨ isPrimitive (headKind ws) = true

private theorem StartsOperand.ne_nil {ws : List Word} (h : StartsOperand ws) : ws ≠ [] := by
  rintro rfl
  rcases h with h | h <;> cases h

/-- How words start does not depend on what follows them. -/
theorem StartsOperand.append {ws : List Word} (h : StartsOperand ws) (rest : List Word) :
    StartsOperand (ws ++ rest) := by
  rwa [StartsOperand, headKind_append_of_ne_nil h.ne_nil]

private theorem IsName.startsOperand (h : IsName tree) : StartsOperand tree.words := by
  obtain ⟨text, ws, hw⟩ := h.words_eq
  rw [hw]
  exact .inl rfl

private theorem IsType.startsOperand {allowVoid : Bool} (h : IsType allowVoid tree) :
    StartsOperand tree.words := by
  rcases h.words_eq with ⟨text, ws, hw⟩ | ⟨primitive, ws, hw, -⟩
  · rw [hw]
    exact .inl rfl
  · rw [hw]
    exact .inr rfl

private theorem IsPrimary.startsOperand (h : IsPrimary sub tree) : StartsOperand tree.words := by
  cases h with
  | number | character | string | null | this | parenthesized | creation => exact .inl rfl
  | boolean span value => cases value <;> exact .inl rfl
  | typeLiteral span h => exact h.startsOperand.append _
  | call span hn ha =>
    rw [Tree.words, List.append_assoc]
    exact (IsName.simple hn).startsOperand.append _
  | name h => exact h.startsOperand

private theorem IsSelected.startsOperand (h : IsSelected sub tree) : StartsOperand tree.words := by
  induction h with
  | primary h => exact h.startsOperand
  | field span ho hno hn ih => exact ih.append _
  | element span ho hi ih =>
    rw [Tree.words, List.append_assoc]
    exact ih.append _
  | @call span operand name arguments ho hn ha ih =>
    cases operand with
    | absent => exact absurd rfl ih.ne_nil
    | node info kind =>
      rw [Tree.words, Tree.isPresent, if_pos rfl]
      simp only [List.append_assoc]
      exact ih.append _

private theorem IsPostfixed.startsOperand (h : IsPostfixed sub tree) :
    StartsOperand tree.words := by
  induction h with
  | selected h => exact h.startsOperand
  | operator span operator h ih => exact ih.append _

/-- A unary expression starts with an operator if not as an operand of a cast or with a primitive
type. -/
theorem IsUnary.startsOperand (h : IsUnary sub tree) :
    StartsOperand tree.words ∨
      ∃ span operator operand, tree = .node span (.prefixExpression operator operand) := by
  cases h with
  | operator span operator h => exact .inr ⟨_, _, _, rfl⟩
  | cast => exact .inl (.inl rfl)
  | postfixed h => exact .inl h.startsOperand

/-- What reads as a cast still does, if it is not overlooked: where the operand starts with another
word, a literal is its start. -/
theorem ReadsAsCast.collapse {operand : SourceTree} (h : ReadsAsCast type operand)
    (ho : StartsOperand operand.collapse.words ∨
      ∃ span operator inner, operand.collapse = .node span (.prefixExpression operator inner))
    (hn : isOverlooked (.node span (.castExpression type operand.collapse)) = false) :
    ReadsAsCast type operand.collapse := by
  rcases ho with (hstarts | hprimitive) | ⟨info, operator, inner, he⟩
  · exact .inr hstarts
  · rw [isOverlooked, hprimitive, Bool.and_true, Bool.not_eq_false'] at hn
    exact .inl hn
  · obtain ⟨kind, rfl, hkind⟩ := kind_of_collapse he rfl
    cases kind with
    | prefixExpression => cases hkind; exact h
    | _ => cases hkind

/-- Classes that taking parentheses around literals away does not lead out of. -/
structure Collapses (sub : Phrases) : Prop where
  /-- Literals are literals. -/
  literal : LiteralPhrases sub
  /-- Unary expressions start as they do in the grammar. -/
  front : ∀ tree, sub .unary tree → StartsOperand tree.words ∨
    ∃ span operator operand, tree = .node span (.prefixExpression operator operand)
  /-- What is left belongs to the class. -/
  collapse : ∀ level tree, sub level tree → SeesCasts tree.collapse → sub level tree.collapse

/-- The expressions of a list stay expressions. -/
theorem Collapses.expressions (hs : Collapses sub) {trees : List SourceTree}
    (h : ∀ t ∈ trees, sub .expression t) (hc : ∀ t ∈ trees, SeesCasts t.collapse) :
    ∀ t ∈ trees.map Tree.collapse, sub .expression t :=
  List.forall_mem_map.2 fun t ht => hs.collapse _ t (h t ht) (hc t ht)

/-- An operand stays one: parentheses that go leave a literal, which is an operand too. -/
theorem IsPrimary.collapse (hs : Collapses sub) (h : IsPrimary sub tree)
    (hc : SeesCasts tree.collapse) : IsPrimary sub tree.collapse := by
  cases h with
  | number => exact .number _ _
  | character => exact .character _ _
  | string => exact .string _ _
  | boolean => exact .boolean _ _
  | null => exact .null _
  | this => exact .this _
  | typeLiteral span h =>
    rw [collapse_of_tag_ne (by rintro ⟨⟩)]
    exact .typeLiteral span h.collapse
  | @parenthesized span expression h =>
    rcases Tree.collapse_cases span (.parenthesizedExpression expression) with
      ⟨htag, -⟩ | ⟨inner, hinner, ⟨hends, he⟩ | ⟨-, he⟩⟩
    · exact absurd rfl htag
    · cases hinner
      rw [he] at hc ⊢
      have hliteral : expression.collapse.isLiteral = true :=
        (Tree.isLiteral_collapse expression).trans hends
      exact (hs.literal _ _ (hs.collapse _ _ h hc) hliteral).isPrimary
    · cases hinner
      rw [he] at hc ⊢
      exact .parenthesized span (hs.collapse _ _ h
        ((seesCasts_node.1 hc).2 _ (by simp [NodeKind.occupants, NodeKind.slots])))
  | @creation span typeSpan name arguments hn ha =>
    have hargs : ∀ a ∈ arguments, SeesCasts a.collapse := fun a hm =>
      hc.of_collapse (by rintro ⟨⟩) (by simp [NodeKind.occupants, NodeKind.slots, hm])
    rw [collapse_of_tag_ne (by rintro ⟨⟩)]
    exact .creation span typeSpan hn.collapse (hs.expressions ha hargs)
  | @call span name arguments hn ha =>
    have hargs : ∀ a ∈ arguments, SeesCasts a.collapse := fun a hm =>
      hc.of_collapse (by rintro ⟨⟩) (by simp [NodeKind.occupants, NodeKind.slots, hm])
    rw [collapse_of_tag_ne (by rintro ⟨⟩)]
    exact .call span hn.collapse (hs.expressions ha hargs)
  | name h => exact .name h.collapse

/-- A selection stays one, by induction on its selectors; an operand that becomes a literal is no
name as before. -/
theorem IsSelected.collapse (hs : Collapses sub) (h : IsSelected sub tree)
    (hc : SeesCasts tree.collapse) : IsSelected sub tree.collapse := by
  induction h with
  | primary h => exact .primary (h.collapse hs hc)
  | field span ho hno hn ih =>
    have hoperand := ih
      (hc.of_collapse (by rintro ⟨⟩) (by simp [NodeKind.occupants, NodeKind.slots]))
    rw [collapse_of_tag_ne (by rintro ⟨⟩)]
    exact .field span hoperand (mt IsName.of_collapse hno) hn.collapse
  | @call span operand name arguments ho hn ha ih =>
    have hoperand := ih
      (hc.of_collapse (by rintro ⟨⟩) (by simp [NodeKind.occupants, NodeKind.slots]))
    have hargs : ∀ a ∈ arguments, SeesCasts a.collapse := fun a hm =>
      hc.of_collapse (by rintro ⟨⟩) (by simp [NodeKind.occupants, NodeKind.slots, hm])
    rw [collapse_of_tag_ne (by rintro ⟨⟩)]
    exact .call span hoperand hn.collapse (hs.expressions ha hargs)
  | element span ho hi ih =>
    have hoperand := ih
      (hc.of_collapse (by rintro ⟨⟩) (by simp [NodeKind.occupants, NodeKind.slots]))
    have hindex := hs.collapse _ _ hi
      (hc.of_collapse (by rintro ⟨⟩) (by simp [NodeKind.occupants, NodeKind.slots]))
    rw [collapse_of_tag_ne (by rintro ⟨⟩)]
    exact .element span hoperand hindex

/-- A postfix operation stays one. -/
theorem IsPostfixed.collapse (hs : Collapses sub) (h : IsPostfixed sub tree)
    (hc : SeesCasts tree.collapse) : IsPostfixed sub tree.collapse := by
  induction h with
  | selected h => exact .selected (h.collapse hs hc)
  | operator span operator h ih =>
    have hoperand := ih
      (hc.of_collapse (by rintro ⟨⟩) (by simp [NodeKind.occupants, NodeKind.slots]))
    rw [collapse_of_tag_ne (by rintro ⟨⟩)]
    exact .operator span operator hoperand

/-- A prefix operation or cast stays one; what is behind a cast still starts as an operand unless
the cast is overlooked. -/
theorem IsUnary.collapse (hs : Collapses sub) (h : IsUnary sub tree)
    (hc : SeesCasts tree.collapse) : IsUnary sub tree.collapse := by
  cases h with
  | operator span operator h =>
    have hoperand := hs.collapse _ _ h
      (hc.of_collapse (by rintro ⟨⟩) (by simp [NodeKind.occupants, NodeKind.slots]))
    rw [collapse_of_tag_ne (by rintro ⟨⟩)]
    exact .operator span operator hoperand
  | @cast span type operand ht ho hcast =>
    have hoperand := hs.collapse _ _ ho
      (hc.of_collapse (by rintro ⟨⟩) (by simp [NodeKind.occupants, NodeKind.slots]))
    rw [collapse_of_tag_ne (by rintro ⟨⟩)] at hc ⊢
    have hseen : isOverlooked (.node span (.castExpression type.collapse operand.collapse)) =
        false :=
      (seesCasts_node.1 hc).1
    rw [ht.collapse_eq] at hseen
    have hreads := hcast.collapse (hs.front _ hoperand) hseen
    rw [← ht.collapse_eq] at hreads
    exact .cast span ht.collapse hoperand hreads
  | postfixed h => exact .postfixed (h.collapse hs hc)

/-- What an operand leaves alone does not change: an infix operator stays one. -/
theorem Admits.collapse {precedence : Nat} (h : Admits precedence tree) :
    Admits precedence tree.collapse := by
  cases hcollapse : tree.collapse with
  | absent => trivial
  | node span kind' =>
    cases kind' with
    | infixExpression operator left right =>
      obtain ⟨kind, rfl, hkind⟩ := kind_of_collapse hcollapse rfl
      cases kind with
      | infixExpression => cases hkind; exact h
      | _ => cases hkind
    | _ => trivial

/-- An infix operation stays one, by induction on the chain to the left. -/
theorem IsBinary.collapse {least : Nat} (hs : Collapses sub) (h : IsBinary sub least tree)
    (hc : SeesCasts tree.collapse) : IsBinary sub least tree.collapse := by
  induction h with
  | unary h => exact .unary (h.collapse hs hc)
  | infixed span operator hl hp ha hr ih =>
    have hleft := ih (hc.of_collapse (by rintro ⟨⟩) (by simp [NodeKind.occupants, NodeKind.slots]))
    have hright := hs.collapse _ _ hr
      (hc.of_collapse (by rintro ⟨⟩) (by simp [NodeKind.occupants, NodeKind.slots]))
    rw [collapse_of_tag_ne (by rintro ⟨⟩)]
    exact .infixed span operator hleft hp ha.collapse hright
  | instanceof span hl hp ha ht ih =>
    have hleft := ih (hc.of_collapse (by rintro ⟨⟩) (by simp [NodeKind.occupants, NodeKind.slots]))
    rw [collapse_of_tag_ne (by rintro ⟨⟩)]
    exact .instanceof span hleft hp ha.collapse ht.collapse

/-- A conditional stays one. -/
theorem IsConditional.collapse (hs : Collapses sub) (h : IsConditional sub tree)
    (hc : SeesCasts tree.collapse) : IsConditional sub tree.collapse := by
  cases h with
  | binary h => exact .binary (h.collapse hs hc)
  | choice span hcond ht he =>
    have hcondition := hcond.collapse hs
      (hc.of_collapse (by rintro ⟨⟩) (by simp [NodeKind.occupants, NodeKind.slots]))
    have hthen := hs.collapse _ _ ht
      (hc.of_collapse (by rintro ⟨⟩) (by simp [NodeKind.occupants, NodeKind.slots]))
    have helse := hs.collapse _ _ he
      (hc.of_collapse (by rintro ⟨⟩) (by simp [NodeKind.occupants, NodeKind.slots]))
    rw [collapse_of_tag_ne (by rintro ⟨⟩)]
    exact .choice span hcondition hthen helse

/-- An assignment stays one. -/
theorem IsAssignment.collapse (hs : Collapses sub) (h : IsAssignment sub tree)
    (hc : SeesCasts tree.collapse) : IsAssignment sub tree.collapse := by
  cases h with
  | conditional h => exact .conditional (h.collapse hs hc)
  | assignment span operator hl hr =>
    have hleft := hl.collapse hs
      (hc.of_collapse (by rintro ⟨⟩) (by simp [NodeKind.occupants, NodeKind.slots]))
    have hright := hs.collapse _ _ hr
      (hc.of_collapse (by rintro ⟨⟩) (by simp [NodeKind.occupants, NodeKind.slots]))
    rw [collapse_of_tag_ne (by rintro ⟨⟩)]
    exact .assignment span operator hleft hright

private theorem collapses_fits (depth : Nat) : Collapses (Fits depth) := by
  induction depth with
  | zero => exact ⟨fun _ _ h => h.elim, fun _ h => h.elim, fun _ _ h => h.elim⟩
  | succ depth ih =>
    refine ⟨literalPhrases_next _, fun _ h => IsUnary.startsOperand h, fun level tree h hc => ?_⟩
    cases level with
    | expression => exact IsAssignment.collapse ih h hc
    | conditional => exact IsConditional.collapse ih h hc
    | binary least => exact IsBinary.collapse ih h hc
    | unary => exact IsUnary.collapse ih h hc

/-- An expression stays one, by induction on its depth. -/
theorem IsExpression.collapse (h : IsExpression tree) (hc : SeesCasts tree.collapse) :
    IsExpression tree.collapse := by
  obtain ⟨depth, h⟩ := h
  exact ⟨depth, (collapses_fits depth).collapse _ _ h hc⟩

end Expressions

/-! ## Statements -/

/-- A class that taking parentheses around literals away does not lead out of. -/
def Collapsible (P : SourceTree → Prop) : Prop :=
  ∀ tree, P tree → SeesCasts tree.collapse → P tree.collapse

section Clauses

variable {P sub : SourceTree → Prop}

/-- The trees of a list stay in their class. -/
theorem Collapsible.row (hP : Collapsible P) {trees : List SourceTree} (h : ∀ t ∈ trees, P t)
    (hc : ∀ t ∈ trees, SeesCasts t.collapse) : ∀ t ∈ trees.map Tree.collapse, P t :=
  List.forall_mem_map.2 fun t ht => hP t (h t ht) (hc t ht)

/-- A tree that may be missing stays in its class or stays missing. -/
theorem Collapsible.optional (hP : Collapsible P) : Collapsible (IsOptional P) := by
  rintro tree (rfl | h) hc
  · exact .inl rfl
  · exact .inr (hP tree h hc)

private theorem collapsible_expression : Collapsible IsExpression := fun _ h hc => h.collapse hc

private theorem collapsible_type {allowVoid : Bool} : Collapsible
    (IsType allowVoid) := fun _ h _ => h.collapse

private theorem collapsible_fragment : Collapsible IsFragment := by
  rintro tree ⟨span, hn, hi⟩ hc
  have hinitializer := collapsible_expression.optional _ hi
    (hc.of_collapse (by rintro ⟨⟩) (by simp [NodeKind.occupants, NodeKind.slots]))
  rw [collapse_of_tag_ne (by rintro ⟨⟩)]
  exact .intro span hn.collapse hinitializer

private theorem collapsible_localDeclaration : Collapsible IsLocalDeclaration := by
  rintro tree ⟨span, modifiers, ht, hne, hf⟩ hc
  have hfragments := collapsible_fragment.row hf fun f hm =>
    hc.of_collapse (by rintro ⟨⟩) (by simp [NodeKind.occupants, NodeKind.slots, hm])
  rw [collapse_of_tag_ne (by rintro ⟨⟩)]
  exact .intro span modifiers ht.collapse (mt List.map_eq_nil_iff.1 hne) hfragments

/-- What a loop starts with stays a declaration or a list of expressions. -/
theorem IsInitializers.collapse {trees : List SourceTree} (h : IsInitializers trees)
    (hc : ∀ t ∈ trees, SeesCasts t.collapse) : IsInitializers (trees.map Tree.collapse) := by
  cases h with
  | declaration h => exact .declaration (collapsible_localDeclaration _ h (hc _ (by simp)))
  | expressions h => exact .expressions (collapsible_expression.row h hc)

private theorem collapsible_block (hs : Collapsible sub) : Collapsible (IsBlock sub) := by
  rintro tree ⟨span, h⟩ hc
  have hstatements := hs.row h fun t hm =>
    hc.of_collapse (by rintro ⟨⟩) (by simp [NodeKind.occupants, NodeKind.slots, hm])
  rw [collapse_of_tag_ne (by rintro ⟨⟩)]
  exact .intro span hstatements

/-- An `if` at the end keeps or lacks its `else`. -/
theorem endsOpen_collapse (tree : SourceTree) : tree.collapse.endsOpen = tree.endsOpen := by
  induction tree using Tree.byOccupants with
  | absent => rfl
  | node span kind ih =>
    rcases Tree.collapse_cases span kind with ⟨-, he⟩ | ⟨inner, rfl, ⟨hends, he⟩ | ⟨-, he⟩⟩
    · rw [he]
      cases kind with
      | ifStatement expression thenStatement elseStatement =>
        change (!elseStatement.collapse.isPresent || elseStatement.collapse.endsOpen) =
          (!elseStatement.isPresent || elseStatement.endsOpen)
        rw [Tree.isPresent_collapse, ih _ (by simp [NodeKind.occupants, NodeKind.slots])]
      | whileStatement expression body | forStatement initializers expression updaters body =>
        exact ih body (by simp [NodeKind.occupants, NodeKind.slots])
      | _ => rfl
    · have hliteral : inner.collapse.isLiteral = true := (Tree.isLiteral_collapse inner).trans hends
      rw [he]
      cases hcollapse : inner.collapse with
      | absent => rfl
      | node info kind =>
        rw [hcollapse] at hliteral
        cases kind with
        | ifStatement | whileStatement | forStatement => cases hliteral
        | _ => rfl
    · rw [he]
      rfl

/-- A statement stays one if the statements inside do: one case for each form. -/
private theorem collapsible_statementOf (hs : Collapsible sub) : Collapsible
    (IsStatementOf sub) := by
  intro tree h hc
  cases h with
  | block h => exact .block (collapsible_block hs _ h hc)
  | empty span => exact .empty span
  | breakLoop span => exact .breakLoop span
  | continueLoop span => exact .continueLoop span
  | declaration h => exact .declaration (collapsible_localDeclaration _ h hc)
  | expression span h =>
    have hexpression := h.collapse
      (hc.of_collapse (by rintro ⟨⟩) (by simp [NodeKind.occupants, NodeKind.slots]))
    rw [collapse_of_tag_ne (by rintro ⟨⟩)]
    exact .expression span hexpression
  | throwValue span h =>
    have hvalue := h.collapse
      (hc.of_collapse (by rintro ⟨⟩) (by simp [NodeKind.occupants, NodeKind.slots]))
    rw [collapse_of_tag_ne (by rintro ⟨⟩)]
    exact .throwValue span hvalue
  | returnValue span h =>
    have hvalue := collapsible_expression.optional _ h
      (hc.of_collapse (by rintro ⟨⟩) (by simp [NodeKind.occupants, NodeKind.slots]))
    rw [collapse_of_tag_ne (by rintro ⟨⟩)]
    exact .returnValue span hvalue
  | ifThen span hcond ht =>
    have hcondition := hcond.collapse
      (hc.of_collapse (by rintro ⟨⟩) (by simp [NodeKind.occupants, NodeKind.slots]))
    have hthen := hs _ ht
      (hc.of_collapse (by rintro ⟨⟩) (by simp [NodeKind.occupants, NodeKind.slots]))
    rw [collapse_of_tag_ne (by rintro ⟨⟩)]
    exact .ifThen span hcondition hthen
  | ifThenElse span hcond ht ho he =>
    have hcondition := hcond.collapse
      (hc.of_collapse (by rintro ⟨⟩) (by simp [NodeKind.occupants, NodeKind.slots]))
    have hthen := hs _ ht
      (hc.of_collapse (by rintro ⟨⟩) (by simp [NodeKind.occupants, NodeKind.slots]))
    have helse := hs _ he
      (hc.of_collapse (by rintro ⟨⟩) (by simp [NodeKind.occupants, NodeKind.slots]))
    rw [collapse_of_tag_ne (by rintro ⟨⟩)]
    exact .ifThenElse span hcondition hthen ((endsOpen_collapse _).trans ho) helse
  | whileLoop span hcond hb =>
    have hcondition := hcond.collapse
      (hc.of_collapse (by rintro ⟨⟩) (by simp [NodeKind.occupants, NodeKind.slots]))
    have hbody := hs _ hb
      (hc.of_collapse (by rintro ⟨⟩) (by simp [NodeKind.occupants, NodeKind.slots]))
    rw [collapse_of_tag_ne (by rintro ⟨⟩)]
    exact .whileLoop span hcondition hbody
  | doLoop span hb hcond =>
    have hcondition := hcond.collapse
      (hc.of_collapse (by rintro ⟨⟩) (by simp [NodeKind.occupants, NodeKind.slots]))
    have hbody := hs _ hb
      (hc.of_collapse (by rintro ⟨⟩) (by simp [NodeKind.occupants, NodeKind.slots]))
    rw [collapse_of_tag_ne (by rintro ⟨⟩)]
    exact .doLoop span hbody hcondition
  | @forLoop span initializers updaters condition body hi hcond hu hb =>
    have hinitializers := hi.collapse fun t hm =>
      hc.of_collapse (by rintro ⟨⟩) (by simp [NodeKind.occupants, NodeKind.slots, hm])
    have hcondition := collapsible_expression.optional _ hcond
      (hc.of_collapse (by rintro ⟨⟩) (by simp [NodeKind.occupants, NodeKind.slots]))
    have hupdaters := collapsible_expression.row hu fun t hm =>
      hc.of_collapse (by rintro ⟨⟩) (by simp [NodeKind.occupants, NodeKind.slots, hm])
    have hbody := hs _ hb
      (hc.of_collapse (by rintro ⟨⟩) (by simp [NodeKind.occupants, NodeKind.slots]))
    rw [collapse_of_tag_ne (by rintro ⟨⟩)]
    exact .forLoop span hinitializers hcondition hupdaters hbody

private theorem collapsible_statementFits (depth : Nat) : Collapsible (StatementFits depth) := by
  induction depth with
  | zero => exact fun _ h => h.elim
  | succ depth ih => exact collapsible_statementOf ih

private theorem collapsible_statement : Collapsible IsStatement := by
  rintro tree ⟨depth, h⟩ hc
  exact ⟨depth, collapsible_statementFits depth _ h hc⟩

/-! ## Declarations -/

private theorem collapsible_parameter : Collapsible IsParameter := by
  rintro tree ⟨span, modifiers, varargs, ht, hn⟩ -
  rw [collapse_of_tag_ne (by rintro ⟨⟩)]
  exact .intro span modifiers varargs ht.collapse hn.collapse

private theorem collapsible_typeDeclarationOf (hs : Collapsible sub) : Collapsible
    (IsTypeDeclarationOf sub) := by
  rintro tree ⟨span, modifiers, interface, hn, hsuper, hm⟩ hc
  have hsuperclass := collapsible_type.optional _ hsuper
    (hc.of_collapse (by rintro ⟨⟩) (by simp [NodeKind.occupants, NodeKind.slots]))
  have hmembers := hs.row hm fun t hmem =>
    hc.of_collapse (by rintro ⟨⟩) (by simp [NodeKind.occupants, NodeKind.slots, hmem])
  rw [collapse_of_tag_ne (by rintro ⟨⟩)]
  exact .intro span modifiers interface hn.collapse hsuperclass hmembers

/-- A member stays one if the members inside do: one case for each form. -/
private theorem collapsible_memberOf (hs : Collapsible sub) : Collapsible (IsMemberOf sub) := by
  intro tree h hc
  cases h with
  | type h => exact .type (collapsible_typeDeclarationOf hs _ h hc)
  | field span modifiers ht hne hf =>
    have hfragments := collapsible_fragment.row hf fun f hm =>
      hc.of_collapse (by rintro ⟨⟩) (by simp [NodeKind.occupants, NodeKind.slots, hm])
    rw [collapse_of_tag_ne (by rintro ⟨⟩)]
    exact .field span modifiers ht.collapse (mt List.map_eq_nil_iff.1 hne) hfragments
  | method span modifiers hr hn hp hb =>
    have hparameters := collapsible_parameter.row hp fun p hm =>
      hc.of_collapse (by rintro ⟨⟩) (by simp [NodeKind.occupants, NodeKind.slots, hm])
    have hbody := (collapsible_block collapsible_statement).optional _ hb
      (hc.of_collapse (by rintro ⟨⟩) (by simp [NodeKind.occupants, NodeKind.slots]))
    rw [collapse_of_tag_ne (by rintro ⟨⟩)]
    exact .method span modifiers hr.collapse hn.collapse hparameters hbody
  | constructor span modifiers hn hp hb =>
    have hparameters := collapsible_parameter.row hp fun p hm =>
      hc.of_collapse (by rintro ⟨⟩) (by simp [NodeKind.occupants, NodeKind.slots, hm])
    have hbody := (collapsible_block collapsible_statement).optional _ hb
      (hc.of_collapse (by rintro ⟨⟩) (by simp [NodeKind.occupants, NodeKind.slots]))
    rw [collapse_of_tag_ne (by rintro ⟨⟩)]
    exact .constructor span modifiers hn.collapse hparameters hbody

private theorem collapsible_memberFits (depth : Nat) : Collapsible (MemberFits depth) := by
  induction depth with
  | zero => exact fun _ h => h.elim
  | succ depth ih => exact collapsible_memberOf ih

private theorem collapsible_member : Collapsible IsMember := by
  rintro tree ⟨depth, h⟩ hc
  exact ⟨depth, collapsible_memberFits depth _ h hc⟩

private theorem collapsible_package : Collapsible IsPackage := by
  rintro tree ⟨span, h⟩ -
  rw [collapse_of_tag_ne (by rintro ⟨⟩)]
  exact .intro span h.collapse

private theorem collapsible_import : Collapsible IsImport := by
  rintro tree ⟨span, isStatic, onDemand, h⟩ -
  rw [collapse_of_tag_ne (by rintro ⟨⟩)]
  exact .intro span isStatic onDemand h.collapse

private theorem collapsible_unit : Collapsible IsUnit := by
  rintro tree ⟨span, hp, hi, ht⟩ hc
  have hpackage := collapsible_package.optional _ hp
    (hc.of_collapse (by rintro ⟨⟩) (by simp [NodeKind.occupants, NodeKind.slots]))
  have himports := collapsible_import.row hi fun i hm =>
    hc.of_collapse (by rintro ⟨⟩) (by simp [NodeKind.occupants, NodeKind.slots, hm])
  have htypes := (collapsible_typeDeclarationOf collapsible_member).row ht fun t hm =>
    hc.of_collapse (by rintro ⟨⟩) (by simp [NodeKind.occupants, NodeKind.slots, hm])
  rw [collapse_of_tag_ne (by rintro ⟨⟩)]
  exact .intro span hpackage himports htypes

/-- What is left of a tree that the grammar describes is described by it, if its casts read as
such. -/
theorem collapsible_describes (goal : Goal) : Collapsible (Describes goal) := by
  cases goal with
  | compilationUnit => exact collapsible_unit
  | expression => exact collapsible_expression

end Clauses

end Grammar

/-! ## Words -/

private theorem Form.placeWords_sublist {form : Form} {tag : Option Tag} {ws ws' : List Word}
    (h : ws.Sublist ws') : (form.placeWords tag ws).Sublist (form.placeWords tag ws') := by
  unfold Form.placeWords
  split
  · have htail := h.reverse.tail
    rwa [List.tail_reverse, List.tail_reverse, List.reverse_sublist] at htail
  · exact h

namespace Tree

/-- What is written around a tree does not change when it becomes a literal. -/
private theorem placeWords_tag?_collapse (form : Form) (tree : SourceTree) (ws : List Word) :
    form.placeWords tree.collapse.tag? ws = form.placeWords tree.tag? ws := by
  cases tree with
  | absent => rfl
  | node span kind =>
    rcases collapse_cases span kind with ⟨-, he⟩ | ⟨inner, rfl, ⟨hends, he⟩ | ⟨-, he⟩⟩
    · rw [he, tag?, tag?, NodeKind.tag_map]
    · have hliteral : inner.collapse.isLiteral = true := (isLiteral_collapse inner).trans hends
      rw [he]
      rw [isLiteral] at hliteral
      cases htag : inner.collapse.tag? with
      | none => cases form <;> rfl
      | some tag =>
        rw [htag] at hliteral
        cases tag <;> first | exact absurd hliteral (by decide) | (cases form <;> rfl)
    · rw [he]
      rfl

private theorem wordsRow_collapse_sublist {form : Form} {trees : List SourceTree}
    (h : ∀ t ∈ trees, t.collapse.words.Sublist t.words) :
    (wordsRow form (trees.map collapse)).Sublist (wordsRow form trees) := by
  induction trees with
  | nil => exact .refl _
  | cons t trees ih =>
    obtain ⟨ht, hrest⟩ := List.forall_mem_cons.1 h
    rw [List.map_cons, wordsRow, wordsRow, List.isEmpty_map, placeWords_tag?_collapse]
    exact ((Form.placeWords_sublist ht).append (.refl _)).append (ih hrest)

/-- No word is added, and the words keep their order. -/
theorem words_collapse_sublist (tree : SourceTree) : tree.collapse.words.Sublist tree.words := by
  induction tree using byOccupants with
  | absent => exact .refl _
  | node span kind ih =>
    have hrow : ∀ (form : Form) (trees : List SourceTree), (∀ t ∈ trees, t ∈ kind.occupants) →
        (wordsRow form (trees.map collapse)).Sublist (wordsRow form trees) :=
      fun form trees h => wordsRow_collapse_sublist fun t ht => ih t (h t ht)
    rcases collapse_cases span kind with ⟨-, he⟩ | ⟨inner, rfl, ⟨-, he⟩ | ⟨-, he⟩⟩
    · rw [he]
      -- the words of a node are its own and those of its children, in the same order in both
      cases kind <;>
        simp only [NodeKind.map, NodeKind.traverse, Id.run, pure, bind, words, isPresent_collapse,
            id]
      all_goals
        repeat' first
          | exact List.Sublist.refl _
          | exact ih _ (by simp [NodeKind.occupants, NodeKind.slots])
          | exact hrow _ _ (by simp +contextual [NodeKind.occupants, NodeKind.slots])
          | apply List.Sublist.append
          | apply List.Sublist.cons_cons
          | split
    · rw [he, words, List.cons_append]
      have hinner := ih inner (by simp [NodeKind.occupants, NodeKind.slots])
      exact (hinner.trans (List.sublist_append_left ..)).cons _
    · rw [he, words, words]
      have hinner := ih inner (by simp [NodeKind.occupants, NodeKind.slots])
      exact (hinner.cons_cons _).append (.refl _)
end Tree

end JavaFold
