import JavaFold.Proofs.Grammar.Words

/-!
# What is seen ahead

The scan over a type passes what reads as a type, and the lookahead that is made of it goes back in
the end. On words, what is passed and what is seen are functions of the words alone
(`outcome_scanType`, `outcome_atDeclaration`, `outcome_atCast`).
-/

namespace JavaFold.Grammar

open Cursor

variable {α : Type} {ws rest : List Word}

/-! ## Where a type ends -/

/-- The words after the rest `.b.c` of a name. -/
def skipQualifiers : List Word → List Word
  | .punctuator .dot :: .identifier _ :: rest => skipQualifiers rest
  | rest => rest

/-- The words after any dimensions. -/
def skipDimensions : List Word → List Word
  | .punctuator .lbracket :: .punctuator .rbracket :: rest => skipDimensions rest
  | rest => rest

/-- The words after a type other than `void`, if the words start with one. -/
def skipType : List Word → Option (List Word)
  | .keyword (.primitive primitive) :: rest =>
    if primitive = .void then none else some (skipDimensions rest)
  | .identifier _ :: rest => some (skipDimensions (skipQualifiers rest))
  | _ => none

/-- The words do not go on with a step `.a` of a name. -/
def StopsName (ws : List Word) : Prop :=
  headKind ws = .punctuator .dot → headKind ws.tail ≠ .identifier

/-- The words do not go on with a dimension `[]`. -/
def StopsDimensions (ws : List Word) : Prop :=
  headKind ws = .punctuator .lbracket → headKind ws.tail ≠ .punctuator .rbracket

/-- A name ends where no point follows. -/
theorem stopsName_of_head (h : headKind ws ≠ .punctuator .dot) : StopsName ws :=
  fun hd => absurd hd h

/-- The dimensions of a type end where no bracket follows. -/
theorem stopsDimensions_of_head (h : headKind ws ≠ .punctuator .lbracket) : StopsDimensions ws :=
  fun hb => absurd hb h

/-- What starts with neither a name nor a primitive type is no type. -/
theorem skipType_eq_none {w : Word}
    (hprimitive : ∀ primitive, w.kind ≠ .keyword (.primitive primitive))
    (hidentifier : w.kind ≠ .identifier) : skipType (w :: ws) = none := by
  unfold skipType
  split
  next primitive rest he => cases he; exact absurd rfl (hprimitive primitive)
  next text rest he => cases he; exact absurd rfl hidentifier
  next => rfl

/-- No word is skipped where a name ends. -/
theorem skipQualifiers_of_stops (h : StopsName ws) : skipQualifiers ws = ws := by
  unfold skipQualifiers
  split
  · exact absurd rfl (h rfl)
  · rfl

/-- No bracket is skipped where the dimensions end. -/
theorem skipDimensions_of_stops (h : StopsDimensions ws) : skipDimensions ws = ws := by
  unfold skipDimensions
  split
  · exact absurd rfl (h rfl)
  · rfl

/-- The words of a name are skipped to its end. -/
theorem stopsName_skipQualifiers (ws : List Word) : StopsName (skipQualifiers ws) := by
  fun_induction skipQualifiers ws with
  | case1 text rest ih => exact ih
  | case2 ws h =>
    intro hd hi
    obtain ⟨us, rfl⟩ := exists_punctuator_of_headKind hd
    obtain ⟨w, vs, rfl, hw⟩ := exists_cons_of_headKind hi (by decide)
    obtain ⟨text, rfl⟩ := Word.kind_eq_identifier.1 hw
    exact h text vs rfl

/-- The brackets of a type are skipped to their end. -/
theorem stopsDimensions_skipDimensions (ws : List Word) : StopsDimensions (skipDimensions ws) := by
  fun_induction skipDimensions ws with
  | case1 rest ih => exact ih
  | case2 ws h =>
    intro hl hr
    obtain ⟨us, rfl⟩ := exists_punctuator_of_headKind hl
    obtain ⟨vs, rfl⟩ := exists_punctuator_of_headKind hr
    exact h vs rfl

/-! ## Repeated steps over a type -/

/-- A step that takes a point and an identifier each time is repeated up to the end of the name. -/
theorem exists_loops_qualifiers (step : α → Parser Cursor (Option α))
    (hstep : ∀ v text us, ∃ v',
      (step v).outcome (reading (.punctuator .dot :: .identifier text :: us)) =
        some (some v', reading us)) (v : α) (ws : List Word) :
    ∃ v', Loops step v ws v' (skipQualifiers ws) := by
  fun_induction skipQualifiers ws generalizing v with
  | case1 text rest ih =>
    obtain ⟨v', hv⟩ := hstep v text rest
    obtain ⟨v'', hl⟩ := ih v'
    exact ⟨v'', .head hv (by grind) hl⟩
  | case2 ws h => exact ⟨v, .refl⟩

/-- A step that takes two brackets each time is repeated up to the end of the dimensions. -/
theorem exists_loops_dimensions (step : α → Parser Cursor (Option α))
    (hstep : ∀ v us, ∃ v',
      (step v).outcome (reading (.punctuator .lbracket :: .punctuator .rbracket :: us)) =
        some (some v', reading us)) (v : α) (ws : List Word) :
    ∃ v', Loops step v ws v' (skipDimensions ws) := by
  fun_induction skipDimensions ws generalizing v with
  | case1 rest ih =>
    obtain ⟨v', hv⟩ := hstep v rest
    obtain ⟨v'', hl⟩ := ih v'
    exact ⟨v'', .head hv (by grind) hl⟩
  | case2 ws h => exact ⟨v, .refl⟩

private theorem outcome_scanQualifiers (ws : List Word) :
    (repeating scanQualifier ()).outcome (reading ws) = some ((), reading (skipQualifiers ws)) := by
  obtain ⟨_, hl⟩ := exists_loops_qualifiers scanQualifier
    (fun v text us => ⟨(), by simp [scanQualifier, Word.kind]⟩) () ws
  have hstop := stopsName_skipQualifiers ws
  refine outcome_repeating_of_loops hl ?_
  have hdeclines : ¬ (headKind (skipQualifiers ws) = .punctuator .dot ∧
      headKind (skipQualifiers ws).tail = .identifier) := fun hh => hstop hh.1 hh.2
  simp [scanQualifier, hdeclines]

private theorem outcome_scanDimensions (ws : List Word) :
    (repeating scanDimension ()).outcome (reading ws) = some ((), reading (skipDimensions ws)) := by
  obtain ⟨_, hl⟩ := exists_loops_dimensions scanDimension
    (fun v us => ⟨(), by simp [scanDimension, Word.kind]⟩) () ws
  have hstop := stopsDimensions_skipDimensions ws
  refine outcome_repeating_of_loops hl ?_
  have hdeclines : ¬ (headKind (skipDimensions ws) = .punctuator .lbracket ∧
      headKind (skipDimensions ws).tail = .punctuator .rbracket) := fun hh => hstop hh.1 hh.2
  simp [scanDimension, hdeclines]

/-- The scan passes a type if there is one, and else stays where it is. -/
@[simp] theorem outcome_scanType (ws : List Word) :
    scanType.outcome (reading ws) = match skipType ws with
      | some rest => some (true, reading rest)
      | none => some (false, reading ws) := by
  cases ws with
  | nil => rfl
  | cons w ws =>
    simp only [scanType, scanElement, outcome_bind, outcome_currentKind, headKind_cons,
      Option.bind_some]
    split
    next primitive hk =>
      cases Word.kind_eq_keyword.1 hk
      by_cases hv : primitive = .void
      · simp [skipType, hv]
      · simp [skipType, hv, outcome_scanDimensions]
    next hk =>
      obtain ⟨text, rfl⟩ := Word.kind_eq_identifier.1 hk
      simp [skipType, outcome_scanQualifiers, outcome_scanDimensions]
    next hprimitive hidentifier =>
      rw [skipType_eq_none hprimitive hidentifier]
      rfl

/-! ## Modifiers -/

/-- Whether a class of words is a modifier. -/
def isModifier : TokenKind → Bool
  | .keyword (.modifier _) => true
  | _ => false

/-- The words after any modifiers. -/
def skipModifiers (ws : List Word) : List Word :=
  ws.dropWhile fun w => isModifier w.kind

/-- No word is skipped where no modifier stands. -/
theorem skipModifiers_of_head (h : isModifier (headKind ws) = false) : skipModifiers ws = ws := by
  cases ws with
  | nil => rfl
  | cons w ws => exact List.dropWhile_cons_of_neg (by simpa using h)

private theorem exists_modifier_of_kind {w : Word} (h : isModifier w.kind = true) :
    ∃ m, w = .keyword (.modifier m) := by
  unfold isModifier at h
  split at h
  next m hk => exact ⟨m, Word.kind_eq_keyword.1 hk⟩
  next => cases h

/-- The modifiers are taken as far as there are any. -/
theorem exists_loops_modifiers (found : Modifiers) (ws : List Word) :
    ∃ modifiers, Loops modifierStep found ws modifiers (skipModifiers ws) ∧
      isModifier (headKind (skipModifiers ws)) = false := by
  induction ws generalizing found with
  | nil => exact ⟨found, .refl, rfl⟩
  | cons w ws ih =>
    cases hm : isModifier w.kind with
    | false =>
      have hself : skipModifiers (w :: ws) = w :: ws := skipModifiers_of_head hm
      rw [hself]
      exact ⟨found, .refl, hm⟩
    | true =>
      obtain ⟨m, rfl⟩ := exists_modifier_of_kind hm
      obtain ⟨modifiers, hl, hstop⟩ := ih (found.insert m)
      rw [skipModifiers, List.dropWhile_cons_of_pos (by simpa using hm)]
      exact ⟨modifiers, .head (by simp [modifierStep, Word.kind]) (by simp) hl, hstop⟩

private theorem outcome_modifierStep_none (found : Modifiers)
    (h : isModifier (headKind ws) = false) :
    (modifierStep found).outcome (reading ws) = some (none, reading ws) := by
  simp only [modifierStep, outcome_bind, outcome_currentKind, Option.bind_some]
  split
  next m hm =>
    rw [hm] at h
    cases h
  next => rfl

/-- Modifiers are always read, and all of them. -/
theorem exists_outcome_modifiers (ws : List Word) :
    ∃ found, modifiers.outcome (reading ws) = some (found, reading (skipModifiers ws)) := by
  obtain ⟨found, hl, hstop⟩ := exists_loops_modifiers .empty ws
  exact ⟨found, outcome_repeating_of_loops hl (outcome_modifierStep_none found hstop)⟩

/-! ## The two lookaheads -/

/-- Whether the words read as modifiers, a type and an identifier. -/
def startsDeclaration (ws : List Word) : Bool :=
  match skipType (skipModifiers ws) with
  | some rest => headKind rest == .identifier
  | none => false

/-- Whether words that start with an opening parenthesis read as a cast. -/
def startsCast : List Word → Bool
  | [] => false
  | _ :: ws =>
    match skipType ws with
    | some (.punctuator .rparen :: operand) =>
      isValueType (headKind ws) || startsCastOperand (headKind operand)
    | _ => false

/-- Over words, the reading ahead over a declaration answers as the function of the words does, and
leaves the cursor where it is. -/
@[simp] theorem outcome_atDeclaration (ws : List Word) :
    atDeclaration.outcome (reading ws) = some (startsDeclaration ws, reading ws) := by
  obtain ⟨found, hm⟩ := exists_outcome_modifiers ws
  simp only [atDeclaration, outcome_lookingAhead, outcome_bind, hm, Option.bind_some,
    outcome_scanType, startsDeclaration]
  cases skipType (skipModifiers ws) with
  | none => rfl
  | some rest => simp

/-- A cast is a type and a closing parenthesis behind one that opens, then an operand; a primitive
type takes any operand. -/
theorem startsCast_cons (w : Word) (ws : List Word) :
    startsCast (w :: ws) = match skipType ws with
      | some rest => headKind rest == .punctuator .rparen &&
          (isValueType (headKind ws) || startsCastOperand (headKind rest.tail))
      | none => false := by
  rw [startsCast]
  split
  next operand hs => simp [hs, Word.kind]
  next hno =>
    cases hs : skipType ws with
    | none => rfl
    | some rest =>
      have hclose : headKind rest ≠ .punctuator .rparen := by
        intro hr
        obtain ⟨operand, rfl⟩ := exists_punctuator_of_headKind hr
        exact hno operand hs
      simp [hclose]

/-- Over words, the reading ahead over a cast answers as the function of the words does, and leaves
the cursor where it is. -/
@[simp] theorem outcome_atCast (ws : List Word) :
    atCast.outcome (reading ws) = some (startsCast ws, reading ws) := by
  cases ws with
  | nil => rfl
  | cons w ws =>
    simp only [atCast, outcome_lookingAhead, outcome_bind, outcome_advance, outcome_currentKind,
      Option.bind_some, outcome_scanType, startsCast_cons]
    cases skipType ws with
    | none => rfl
    | some rest =>
      by_cases hr : headKind rest = .punctuator .rparen <;> simp [hr]

end JavaFold.Grammar
