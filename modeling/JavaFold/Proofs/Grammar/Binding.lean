import JavaFold.Proofs.Arena.Source
import JavaFold.Proofs.Grammar.Parts

/-!
# How tight operands bind

The tree of a source reflects the precedence of its operators and groups equal ones to the left:
what an operator has as an operand is known from the tags and precedences alone (`Tree.WellBound`).
The classes of the grammar say so level by level, and a right operand is of the level that its
operator leaves to it.
-/

namespace JavaFold

/-- Whether nodes of a tag are operands that selectors can follow. -/
def Tag.isPrimary : Tag → Bool
  | numberLiteral | characterLiteral | stringLiteral | booleanLiteral | nullLiteral | typeLiteral
  | thisExpression | parenthesizedExpression | simpleName | qualifiedName | fieldAccess | arrayAccess
  | methodInvocation | classInstanceCreation => true
  | _ => false

/-- Whether nodes of a tag are operands that operators can follow. -/
def Tag.isPostfixLevel (tag : Tag) : Bool :=
  tag.isPrimary || tag == postfixExpression

/-- Whether nodes of a tag are operands of prefix and infix operators without further conditions. -/
def Tag.isUnaryLevel (tag : Tag) : Bool :=
  tag.isPostfixLevel || tag == prefixExpression || tag == castExpression

namespace Tree

variable {ι κ : Type}

/-- The precedence of the operator of an infix expression. -/
def infixPrecedence? : Tree ι → Option Nat
  | .node _ (.infixExpression operator ..) => some operator.precedence
  | _ => none

/-- A tree with a tag of a class. -/
def HasTag (tree : Tree ι) (isOfClass : Tag → Bool) : Prop :=
  ∃ tag, tree.tag? = some tag ∧ isOfClass tag = true

/-- The left operand of an operator of a precedence: equal operators group to the left. -/
def BindsLeft (precedence : Nat) (operand : Tree ι) : Prop :=
  operand.HasTag Tag.isUnaryLevel ∨ operand.tag? = some .instanceofExpression ∨
    ∃ inner, operand.infixPrecedence? = some inner ∧ precedence ≤ inner

/-- The right operand of an operator of a precedence: it binds tighter. -/
def BindsRight (precedence : Nat) (operand : Tree ι) : Prop :=
  operand.HasTag Tag.isUnaryLevel ∨
    (∃ inner, operand.infixPrecedence? = some inner ∧ precedence < inner) ∨
    precedence < 7 ∧ operand.tag? = some .instanceofExpression

/-- The operands of a node bind as tight as its operator asks for. -/
def WellBound : Tree ι → Prop
  | .node _ (.infixExpression operator left right) =>
    left.BindsLeft operator.precedence ∧ right.BindsRight operator.precedence
  | .node _ (.instanceofExpression left _) => left.BindsLeft 7
  | .node _ (.conditionalExpression condition _ elseExpression) =>
    condition.tag? ≠ some .assignment ∧ condition.tag? ≠ some .conditionalExpression ∧
      elseExpression.tag? ≠ some .assignment
  | .node _ (.assignment _ left _) => left.tag? ≠ some .assignment
  | .node _ (.prefixExpression _ operand) | .node _ (.castExpression _ operand) =>
    operand.HasTag Tag.isUnaryLevel
  | .node _ (.postfixExpression _ operand) => operand.HasTag Tag.isPostfixLevel
  | .node _ (.fieldAccess operand _) | .node _ (.arrayAccess operand _) =>
    operand.HasTag Tag.isPrimary
  | .node _ (.methodInvocation operand _ _) => operand = .absent ∨ operand.HasTag Tag.isPrimary
  | _ => True

private theorem infixPrecedence?_mapInfo (f : ι → κ) (tree : Tree ι) :
    (tree.mapInfo f).infixPrecedence? = tree.infixPrecedence? := by
  cases tree with
  | absent => rfl
  | node info kind =>
    rw [mapInfo_node]
    cases kind <;> rfl

private theorem mapInfo_eq_absent {f : ι → κ} {tree : Tree ι} :
    tree.mapInfo f = .absent ↔ tree = .absent := by
  cases tree <;> simp

/-- How operands bind does not depend on what the nodes carry. -/
theorem wellBound_mapInfo {f : ι → κ} {tree : Tree ι} :
    (tree.mapInfo f).WellBound ↔ tree.WellBound := by
  cases tree with
  | absent => rfl
  | node info kind =>
    rw [mapInfo_node]
    cases kind <;>
      simp [NodeKind.map, NodeKind.traverse, Id.run, pure, bind, WellBound, BindsLeft, BindsRight,
        HasTag, infixPrecedence?_mapInfo, mapInfo_eq_absent]

end Tree

namespace Grammar

open JavaFold.Tree

variable {tree : SourceTree} {span : Span} {kind : NodeKind String SourceTree} {sub : Phrases}

/-! ## The tags of the levels -/

private theorem IsName.hasTag_primary (h : IsName tree) : tree.HasTag Tag.isPrimary := by
  cases h with
  | simple h =>
    obtain ⟨span, text⟩ := h
    exact ⟨_, rfl, rfl⟩
  | qualified => exact ⟨_, rfl, rfl⟩

private theorem IsPrimary.hasTag_primary (h : IsPrimary sub tree) : tree.HasTag Tag.isPrimary := by
  cases h with
  | name h => exact h.hasTag_primary
  | _ => exact ⟨_, rfl, rfl⟩

private theorem IsSelected.hasTag_primary (h : IsSelected sub tree) :
    tree.HasTag Tag.isPrimary := by
  cases h with
  | primary h => exact h.hasTag_primary
  | _ => exact ⟨_, rfl, rfl⟩

private theorem IsPostfixed.hasTag_postfixLevel (h : IsPostfixed sub tree) :
    tree.HasTag Tag.isPostfixLevel := by
  cases h with
  | selected h =>
    obtain ⟨tag, ht, hprimary⟩ := h.hasTag_primary
    exact ⟨tag, ht, by rw [Tag.isPostfixLevel, hprimary, Bool.true_or]⟩
  | operator => exact ⟨_, rfl, rfl⟩

private theorem IsUnary.hasTag_unaryLevel (h : IsUnary sub tree) :
    tree.HasTag Tag.isUnaryLevel := by
  cases h with
  | operator => exact ⟨_, rfl, rfl⟩
  | cast => exact ⟨_, rfl, rfl⟩
  | postfixed h =>
    obtain ⟨tag, ht, hpostfix⟩ := h.hasTag_postfixLevel
    exact ⟨tag, ht, by rw [Tag.isUnaryLevel, hpostfix, Bool.true_or, Bool.true_or]⟩

/-- What an operator finds on its left, if the right operand of that leaves the operator alone. -/
theorem IsBinary.bindsLeft {least precedence : Nat} (h : IsBinary sub least tree)
    (ha : Admits precedence tree) : tree.BindsLeft precedence := by
  cases h with
  | unary h => exact .inl h.hasTag_unaryLevel
  | infixed => exact .inr (.inr ⟨_, rfl, ha⟩)
  | instanceof => exact .inr (.inl rfl)

/-- What an operator takes on its right. -/
theorem IsBinary.bindsRight {precedence : Nat} (h : IsBinary sub (precedence + 1) tree) :
    tree.BindsRight precedence := by
  cases h with
  | unary h => exact .inl h.hasTag_unaryLevel
  | infixed span operator hl hp => exact .inr (.inl ⟨_, rfl, hp⟩)
  | instanceof span hl hp => exact .inr (.inr ⟨hp, rfl⟩)

theorem IsBinary.tag?_ne {least : Nat} (h : IsBinary sub least tree) {tag : Tag}
    (ht : tag = .assignment ∨ tag = .conditionalExpression) : tree.tag? ≠ some tag := by
  cases h with
  | unary h =>
    obtain ⟨own, hown, hunary⟩ := h.hasTag_unaryLevel
    rw [hown]
    rintro ⟨⟩
    rcases ht with rfl | rfl <;> cases hunary
  | infixed | instanceof => rcases ht with rfl | rfl <;> nofun

theorem IsConditional.tag?_ne (h : IsConditional sub tree) : tree.tag? ≠ some .assignment := by
  cases h with
  | binary h => exact h.tag?_ne (.inl rfl)
  | choice => nofun

/-! ## The operands of a node -/

/-- The levels of the expressions inside give what the operators outside ask for. -/
structure BoundPhrases (sub : Phrases) : Prop where
  unary : ∀ tree, sub .unary tree → tree.HasTag Tag.isUnaryLevel
  binary : ∀ precedence tree, sub (.binary (precedence + 1)) tree → tree.BindsRight precedence
  conditional : ∀ tree, sub .conditional tree → tree.tag? ≠ some .assignment

private theorem boundPhrases_fits (depth : Nat) : BoundPhrases (Fits depth) := by
  cases depth with
  | zero => exact ⟨fun _ h => h.elim, fun _ _ h => h.elim, fun _ h => h.elim⟩
  | succ depth =>
    exact ⟨fun _ h => IsUnary.hasTag_unaryLevel h, fun _ _ h => IsBinary.bindsRight h,
      fun _ h => IsConditional.tag?_ne h⟩

private theorem IsName.wellBound (h : IsName tree) : tree.WellBound := by
  cases h with
  | simple h =>
    obtain ⟨span, text⟩ := h
    trivial
  | qualified => trivial

private theorem IsType.wellBound {allowVoid : Bool} (h : IsType allowVoid tree) :
    tree.WellBound := by
  cases h with
  | element h => cases h <;> trivial
  | array => trivial

private theorem IsSelected.wellBound (h : IsSelected sub tree) : tree.WellBound := by
  cases h with
  | primary h =>
    cases h with
    | call => exact .inl rfl
    | name h => exact h.wellBound
    | _ => trivial
  | field span ho | element span ho => exact ho.hasTag_primary
  | call span ho => exact .inr ho.hasTag_primary

private theorem IsUnary.wellBound (hs : BoundPhrases sub) (h : IsUnary sub tree) :
    tree.WellBound := by
  cases h with
  | operator span operator h => exact hs.unary _ h
  | cast span ht ho hc => exact hs.unary _ ho
  | postfixed h =>
    cases h with
    | selected h => exact h.wellBound
    | operator span operator h => exact h.hasTag_postfixLevel

private theorem IsBinary.wellBound {least : Nat} (hs : BoundPhrases sub)
    (h : IsBinary sub least tree) :
    tree.WellBound := by
  cases h with
  | unary h => exact h.wellBound hs
  | infixed span operator hl hp ha hr => exact ⟨hl.bindsLeft ha, hs.binary _ _ hr⟩
  | instanceof span hl hp ha ht => exact hl.bindsLeft ha

private theorem IsConditional.wellBound (hs : BoundPhrases sub) (h : IsConditional sub tree) :
    tree.WellBound := by
  cases h with
  | binary h => exact h.wellBound hs
  | choice span hc ht he =>
    exact ⟨hc.tag?_ne (.inl rfl), hc.tag?_ne (.inr rfl), hs.conditional _ he⟩

private theorem IsAssignment.wellBound (hs : BoundPhrases sub) (h : IsAssignment sub tree) :
    tree.WellBound := by
  cases h with
  | conditional h => exact h.wellBound hs
  | assignment span operator hl hr => exact hl.tag?_ne

private theorem Fits.wellBound {depth : Nat} {level : Level} (h : Fits depth level tree) :
    tree.WellBound := by
  cases depth with
  | zero => exact h.elim
  | succ depth =>
    have hs := boundPhrases_fits depth
    cases level with
    | expression => exact IsAssignment.wellBound hs h
    | conditional => exact IsConditional.wellBound hs h
    | binary least => exact IsBinary.wellBound hs h
    | unary => exact IsUnary.wellBound hs h

private theorem StatementFits.wellBound {depth : Nat} (h : StatementFits depth tree) :
    tree.WellBound := by
  cases depth with
  | zero => exact h.elim
  | succ depth =>
    cases h with
    | block h | declaration h => cases h; trivial
    | _ => trivial

private theorem MemberFits.wellBound {depth : Nat} (h : MemberFits depth tree) :
    tree.WellBound := by
  cases depth with
  | zero => exact h.elim
  | succ depth =>
    cases h with
    | type h => cases h; trivial
    | _ => trivial

/-- The operands of a node of the grammar bind as tight as its operator asks for. -/
theorem IsPart.wellBound (h : IsPart tree) : tree.WellBound := by
  cases h with
  | absent => trivial
  | phrase depth level h => exact Fits.wellBound h
  | type h => exact h.wellBound
  | statement h =>
    obtain ⟨depth, h⟩ := h
    exact h.wellBound
  | member h =>
    obtain ⟨depth, h⟩ := h
    exact h.wellBound
  | fragment h | block h | parameter h | declaration h | package h | importLine h | unit h =>
    cases h
    trivial

end Grammar

namespace Arena

open Grammar

variable {wide : Char → Bool} {goal : Goal} {source : String} {arena : Arena}

/-- In what was read the operands of every node bind as tight as its operator asks for. -/
theorem parseWith_wellBound (h : parseWith wide goal source = .ok arena) (id : NodeId)
    (hid : arena.contains id = true) : (arena.tree id).WellBound := by
  obtain ⟨tree, htree, hholds⟩ := holds_of_parseWith h
  have hl := hholds.built.linked
  obtain ⟨root, hroot⟩ := contains_iff.1 hholds.rooted
  obtain ⟨node, hn⟩ := contains_iff.1 hid
  have hunder : arena.Under arena.root id := hholds.covers (index_lt_of_node? hn)
  have hpart := (hl.spans_mem_subtrees hroot hunder).2
  rw [hholds.spans] at hpart
  have hbare : (arena.spans id).bare ∈ tree.bare.subtrees := by
    rw [Tree.bare, Tree.bare, Tree.subtrees_mapInfo]
    exact List.mem_map_of_mem hpart
  have hbound := ((describes_of_parseTreeWith htree).1.isPart _ hbare).wellBound
  rw [Tree.bare, Tree.wellBound_mapInfo, spans, Tree.wellBound_mapInfo] at hbound
  exact hbound

/-- A comparison whose right operand is a test for a type, and two subtractions under it. -/
theorem parseWith_wellBound_comparison :
    ∃ arena, parse .expression "x == a - b - -c instanceof D" = .ok arena ∧ arena.size = 11 ∧
      (arena.tree arena.root).infixPrecedence? = some 6 ∧
      ∀ id, arena.contains id = true → (arena.tree id).WellBound := by
  have hread : (match parse .expression "x == a - b - -c instanceof D" with
      | .ok arena => arena.size == 11 && (arena.tree arena.root).infixPrecedence? == some 6
      | .error _ => false) = true := by
    decide +kernel
  cases h : parse .expression "x == a - b - -c instanceof D" with
  | error error => simp [h] at hread
  | ok arena =>
    simp only [h, Bool.and_eq_true, beq_iff_eq] at hread
    exact ⟨arena, rfl, hread.1, hread.2, parseWith_wellBound h⟩

end Arena

end JavaFold
