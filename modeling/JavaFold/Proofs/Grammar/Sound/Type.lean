import JavaFold.Proofs.Grammar.Front

/-!
# Names, modifiers and types that are read

What a production gives is of its class, and its words are the words that were taken.
-/

namespace JavaFold.Grammar

open Cursor

variable {α β : Type} {ws : List Word} {cursor : Cursor} {tree : SourceTree}

/-- A production that gives a tree takes the words of the tree; `P` says what else is known of the
tree and of the words left. -/
def Sound (production : Parser Cursor SourceTree) (P : SourceTree → List Word → Prop) : Prop :=
  ∀ ws tree cursor, production.outcome (reading ws) = some (tree, cursor) →
    ∃ rest, cursor = reading rest ∧ ws = tree.words ++ rest ∧ P tree rest

/-- Productions in sequence give something if and only if both do. -/
theorem outcome_bind_eq_some {p : Parser Cursor α} {f : α → Parser Cursor β} {c c' : Cursor}
    {b : β} :
    (p >>= f).outcome c = some (b, c') ↔
      ∃ a d, p.outcome c = some (a, d) ∧ (f a).outcome d = some (b, c') := by
  rw [outcome_bind, Option.bind_eq_some_iff]
  constructor
  · rintro ⟨⟨a, d⟩, h⟩
    exact ⟨a, d, h⟩
  · rintro ⟨a, d, h⟩
    exact ⟨⟨a, d⟩, h⟩

/-- A turn extends a tree by the words that it takes, and keeps `P`. -/
def Grows (step : SourceTree → Parser Cursor (Option SourceTree))
    (P : SourceTree → List Word → Prop) : Prop :=
  ∀ found vs x cursor, P found vs → (step found).outcome (reading vs) = some (some x, cursor) →
    ∃ left, cursor = reading left ∧ left.length < vs.length ∧
      found.words ++ vs = x.words ++ left ∧ P x left

/-- A tree that is extended turn by turn has the words that it had and those that were taken. -/
theorem Grows.repeating {step : SourceTree → Parser Cursor (Option SourceTree)}
    {P : SourceTree → List Word → Prop} {first : SourceTree} (hstep : Grows step P)
    (hstop : ∀ found vs cursor, (step found).outcome (reading vs) = some (none, cursor) →
      cursor = reading vs)
    (hfirst : P first ws)
    (h : (repeating step first).outcome (reading ws) = some (tree, cursor)) :
    ∃ rest, cursor = reading rest ∧ first.words ++ ws = tree.words ++ rest ∧ P tree rest ∧
      (step tree).outcome (reading rest) = some (none, reading rest) := by
  have hturn : ∀ found vs x cursor, first.words ++ ws = found.words ++ vs ∧ P found vs →
      (step found).outcome (reading vs) = some (some x, cursor) →
        ∃ left, cursor = reading left ∧ left.length < vs.length ∧
          first.words ++ ws = x.words ++ left ∧ P x left := by
    rintro found vs x cursor ⟨hw, hp⟩ hs
    obtain ⟨left, rfl, hlt, hx, hpx⟩ := hstep found vs x cursor hp hs
    exact ⟨left, rfl, hlt, hw.trans hx, hpx⟩
  obtain ⟨rest, rfl, ⟨hw, hp⟩, hend⟩ := repeating_sound
    (fun found left => first.words ++ ws = found.words ++ left ∧ P found left)
    hturn (fun found vs cursor _ => hstop found vs cursor) ⟨rfl, hfirst⟩ h
  exact ⟨rest, rfl, hw, hp, hend⟩

/-! ## Names -/

/-- A name of one word is read off an identifier. -/
theorem simpleName_eq_some (h : simpleName.outcome (reading ws) = some (tree, cursor)) :
    ∃ text rest, ws = .identifier text :: rest ∧ tree = .node .nowhere (.simpleName text) ∧
      cursor = reading rest := by
  rw [simpleName, outcome_bind_eq_some] at h
  obtain ⟨token, middle, ht, h⟩ := h
  obtain ⟨w, rest, rfl, hw, rfl, rfl⟩ := expect_eq_some ht nofun
  obtain ⟨text, rfl⟩ := Word.kind_eq_identifier.1 hw
  cases h
  exact ⟨text, rest, rfl, rfl, rfl⟩

/-- A name of one word that is read is one. -/
theorem sound_simpleName : Sound simpleName fun tree _ => IsSimpleName tree := by
  intro ws tree cursor h
  obtain ⟨text, rest, rfl, rfl, rfl⟩ := simpleName_eq_some h
  exact ⟨rest, rfl, rfl, .intro _ _⟩

/-- A turn of a name adds one step to it. -/
theorem qualifiedStep_eq_some {name x : SourceTree}
    (h : (qualifiedStep .nowhere name).outcome (reading ws) = some (some x, cursor)) :
    ∃ text rest, ws = .punctuator .dot :: .identifier text :: rest ∧
      x = .node .nowhere (.qualifiedName name (.node .nowhere (.simpleName text))) ∧
      cursor = reading rest := by
  simp only [qualifiedStep, outcome_bind, outcome_checkPunctuator, outcome_kindAt,
    Option.bind_some, outcome_ite] at h
  split at h
  next hd =>
    simp only [Bool.and_eq_true, beq_iff_eq] at hd
    match ws, hd with
    | w :: v :: rest, ⟨hw, hv⟩ =>
      cases Word.kind_eq_punctuator.1 hw
      obtain ⟨text, rfl⟩ := Word.kind_eq_identifier.1 hv
      simp only [outcome_advance, Option.bind_some] at h
      obtain ⟨⟨last, middle⟩, hl, h⟩ := Option.bind_eq_some_iff.1 h
      obtain ⟨text', rest', he, rfl, rfl⟩ := simpleName_eq_some hl
      cases he
      cases h
      exact ⟨text, rest, rfl, rfl, rfl⟩
  next => cases h

/-- Where a name is not lengthened, it ends. -/
theorem qualifiedStep_eq_none {name : SourceTree}
    (h : (qualifiedStep .nowhere name).outcome (reading ws) = some (none, cursor)) :
    cursor = reading ws ∧ StopsName ws := by
  simp only [qualifiedStep, outcome_bind, outcome_checkPunctuator, outcome_kindAt,
    Option.bind_some, outcome_ite] at h
  split at h
  next hd =>
    obtain ⟨⟨_, middle⟩, -, h⟩ := Option.bind_eq_some_iff.1 h
    obtain ⟨⟨last, middle'⟩, -, h⟩ := Option.bind_eq_some_iff.1 h
    obtain ⟨⟨_, _⟩, -, h⟩ := Option.bind_eq_some_iff.1 h
    cases h
  next hd =>
    cases h
    refine ⟨rfl, fun hdot hid => hd ?_⟩
    simpa using ⟨hdot, hid⟩

private theorem grows_qualifiedStep :
    Grows (qualifiedStep .nowhere) fun name _ => IsName name := by
  intro name vs x cursor hn hs
  obtain ⟨text, left, rfl, rfl, rfl⟩ := qualifiedStep_eq_some hs
  exact ⟨left, rfl, by grind, by simp [Tree.words], .qualified _ hn (.intro _ _)⟩

/-- A name that is read is a name. -/
theorem sound_name : Sound Grammar.name fun tree rest => IsName tree ∧ StopsName rest := by
  intro ws tree cursor h
  simp only [Grammar.name, outcome_bind, outcome_currentSpan, Option.bind_some] at h
  obtain ⟨⟨first, middle⟩, hf, h⟩ := Option.bind_eq_some_iff.1 h
  obtain ⟨text, rest, rfl, rfl, rfl⟩ := simpleName_eq_some hf
  obtain ⟨left, rfl, hw, hn, hstop⟩ := grows_qualifiedStep.repeating
    (fun _ _ _ hs => (qualifiedStep_eq_none hs).1) (.simple (.intro _ _)) h
  exact ⟨left, rfl, hw, hn, (qualifiedStep_eq_none hstop).2⟩

/-! ## Types -/

private theorem dimensionStep_eq_some {component x : SourceTree}
    (h : (dimensionStep .nowhere component).outcome (reading ws) = some (some x, cursor)) :
    ∃ rest, ws = .punctuator .lbracket :: .punctuator .rbracket :: rest ∧
      x = .node .nowhere (.arrayType component) ∧ cursor = reading rest := by
  simp only [dimensionStep, outcome_bind, outcome_checkPunctuator, outcome_kindAt,
    Option.bind_some, outcome_ite] at h
  split at h
  next hd =>
    simp only [Bool.and_eq_true, beq_iff_eq] at hd
    match ws, hd with
    | w :: v :: rest, ⟨hw, hv⟩ =>
      cases Word.kind_eq_punctuator.1 hw
      cases Word.kind_eq_punctuator.1 hv
      simp only [outcome_advance, Option.bind_some] at h
      cases h
      exact ⟨rest, rfl, rfl, rfl⟩
  next => cases h

private theorem dimensionStep_eq_none {component : SourceTree}
    (h : (dimensionStep .nowhere component).outcome (reading ws) = some (none, cursor)) :
    cursor = reading ws ∧ StopsDimensions ws := by
  simp only [dimensionStep, outcome_bind, outcome_checkPunctuator, outcome_kindAt,
    Option.bind_some, outcome_ite] at h
  split at h
  next hd =>
    obtain ⟨⟨_, _⟩, -, h⟩ := Option.bind_eq_some_iff.1 h
    obtain ⟨⟨_, _⟩, -, h⟩ := Option.bind_eq_some_iff.1 h
    obtain ⟨⟨_, _⟩, -, h⟩ := Option.bind_eq_some_iff.1 h
    cases h
  next hd =>
    cases h
    refine ⟨rfl, fun hl hr => hd ?_⟩
    simpa using ⟨hl, hr⟩

private theorem grows_dimensionStep {allowVoid : Bool} :
    Grows (dimensionStep .nowhere) fun type _ => IsType allowVoid type := by
  intro type vs x cursor ht hs
  obtain ⟨left, rfl, rfl, rfl⟩ := dimensionStep_eq_some hs
  exact ⟨left, rfl, by grind, by simp [Tree.words], .array _ ht⟩

/-- A type with the dimensions that are read after it. -/
theorem dimensions_sound {allowVoid : Bool} {component : SourceTree}
    (hc : IsType allowVoid component)
    (h : (dimensions .nowhere component).outcome (reading ws) = some (tree, cursor)) :
    ∃ rest, cursor = reading rest ∧ component.words ++ ws = tree.words ++ rest ∧
      IsType allowVoid tree ∧ StopsDimensions rest := by
  obtain ⟨left, rfl, hw, ht, hstop⟩ := grows_dimensionStep.repeating
    (fun _ _ _ hs => (dimensionStep_eq_none hs).1) hc h
  exact ⟨left, rfl, hw, ht, (dimensionStep_eq_none hstop).2⟩

/-- A type that is read is a type. -/
theorem sound_type (allowVoid : Bool) :
    Sound (Grammar.type allowVoid) fun tree _ => IsType allowVoid tree := by
  intro ws tree cursor h
  simp only [Grammar.type, outcome_bind, outcome_currentSpan, outcome_currentKind,
    Option.bind_some] at h
  split at h
  next primitive hk =>
    match ws, hk with
    | w :: rest, hk =>
      cases Word.kind_eq_keyword.1 hk
      rw [outcome_ite] at h
      split at h
      next => cases h
      next hv =>
        simp only [primitiveType, outcome_bind, outcome_advance, Option.bind_some,
          outcome_build] at h
        have helement : IsElementType allowVoid (.node .nowhere (.primitiveType primitive)) := by
          refine .primitive _ fun he => ?_
          simpa [he] using hv
        obtain ⟨left, rfl, hw, ht, -⟩ := dimensions_sound (.element helement) h
        exact ⟨left, rfl, hw, ht⟩
  next hk =>
    obtain ⟨name, middle, hn, hd⟩ := outcome_bind_eq_some.1 h
    obtain ⟨rest, rfl, rfl, hname, -⟩ := sound_name _ _ _ hn
    simp only [outcome_bind, outcome_node, Option.bind_some, merge_nowhere] at hd
    obtain ⟨left, rfl, hw, ht, -⟩ := dimensions_sound (.element (.named _ hname)) hd
    exact ⟨left, rfl, hw, ht⟩
  next => cases h

/-! ## Modifiers -/

private theorem modifierStep_eq_some {found x : Modifiers}
    (h : (modifierStep found).outcome (reading ws) = some (some x, cursor)) :
    ∃ modifier rest, ws = .keyword (.modifier modifier) :: rest ∧ x = found.insert modifier ∧
      cursor = reading rest := by
  simp only [modifierStep, outcome_bind, outcome_currentKind, Option.bind_some] at h
  split at h
  next modifier hk =>
    cases ws with
    | nil => cases hk
    | cons w rest =>
      cases Word.kind_eq_keyword.1 hk
      simp only [outcome_bind, outcome_advance, Option.bind_some] at h
      cases h
      exact ⟨modifier, rest, rfl, rfl, rfl⟩
  next => cases h

private theorem modifierStep_eq_none {found : Modifiers}
    (h : (modifierStep found).outcome (reading ws) = some (none, cursor)) :
    cursor = reading ws ∧ isModifier (headKind ws) = false := by
  simp only [modifierStep, outcome_bind, outcome_currentKind, Option.bind_some] at h
  split at h
  next modifier hk =>
    obtain ⟨_, _, -, h⟩ := outcome_bind_eq_some.1 h
    cases h
  next hk =>
    cases h
    refine ⟨rfl, ?_⟩
    unfold isModifier
    split
    next m hm => exact absurd hm (hk m)
    next => rfl

/-- Between `ws` and the words left stand the modifiers found. -/
private def AreTaken (ws : List Word) (found : Modifiers) (left : List Word) : Prop :=
  ∃ taken, ws = taken ++ left ∧ ∀ m, found.contains m = true → .keyword (.modifier m) ∈ taken

private theorem AreTaken.nil (ws : List Word) : AreTaken ws .empty ws :=
  ⟨[], rfl, fun m hc => by simp [Modifiers.contains, Modifiers.empty] at hc⟩

private theorem AreTaken.step {found x : Modifiers} {vs : List Word} (h : AreTaken ws found vs)
    (hs : (modifierStep found).outcome (reading vs) = some (some x, cursor)) :
    ∃ left, cursor = reading left ∧ left.length < vs.length ∧ AreTaken ws x left := by
  obtain ⟨taken, hw, hm⟩ := h
  obtain ⟨modifier, left, rfl, rfl, rfl⟩ := modifierStep_eq_some hs
  refine ⟨left, rfl, by simp, taken ++ [.keyword (.modifier modifier)], by simp [hw], ?_⟩
  intro m hc
  rw [Modifiers.contains_insert, Bool.or_eq_true, decide_eq_true_eq] at hc
  rcases hc with hc | rfl
  · exact List.mem_append_left _ (hm m hc)
  · simp

/-- The modifiers that are read are among the words that are taken. -/
theorem modifiers_sound {modifiers : Modifiers}
    (h : Grammar.modifiers.outcome (reading ws) = some (modifiers, cursor)) :
    ∃ taken rest, cursor = reading rest ∧ ws = taken ++ rest ∧ modifiers.words ⊆ taken ∧
      isModifier (headKind rest) = false := by
  obtain ⟨left, rfl, ⟨taken, hw, hm⟩, hstop⟩ := repeating_sound (AreTaken ws)
    (fun _ _ _ _ => AreTaken.step) (fun _ _ _ _ hs => (modifierStep_eq_none hs).1) (.nil ws) h
  refine ⟨taken, left, rfl, hw, ?_, (modifierStep_eq_none hstop).2⟩
  intro w hwords
  obtain ⟨m, hmem, rfl⟩ := List.mem_map.1 hwords
  exact hm m (List.mem_filter.1 hmem).2

end JavaFold.Grammar
