import JavaFold.Proofs.Grammar.Law

/-!
# Steps that only take tokens

A step that makes no node does over every state what it does over the cursor of that state, and
leaves the rest of the state as it was (`Lifts`). The lookahead is made of such steps. It is never
refused, so that it comes back to the very state it started in (`run_atCast`, `run_atDeclaration`).
-/

namespace JavaFold.Grammar

open Reading

variable {σ α β : Type}

/-! ## Steps that are never refused -/

/-- A step gives something in every state. -/
def Succeeds (p : Parser σ α) : Prop :=
  ∀ state, ∃ a state', p.run state = .ok a state'

private theorem succeeds_pure (a : α) : Succeeds (pure a : Parser σ α) :=
  fun state => ⟨a, state, rfl⟩

/-- Steps that are never refused are not refused in sequence. -/
theorem Succeeds.bind {p : Parser σ α} {k : α → Parser σ β} (h : Succeeds p)
    (hk : ∀ a, Succeeds (k a)) : Succeeds (p >>= k) := by
  intro state
  obtain ⟨a, middle, hr⟩ := h state
  rw [EStateM.run_bind, hr]
  exact hk a middle

/-- A branch is never refused if neither side is. -/
theorem Succeeds.ite {P : Prop} [Decidable P] {p q : Parser σ α} (hp : Succeeds p)
    (hq : Succeeds q) : Succeeds (if P then p else q) := by
  split
  · exact hp
  · exact hq

private theorem succeeds_iterate {step : α → Parser σ (Option α)} (h : ∀ a, Succeeds (step a))
    (turns : Nat) (a : α) : Succeeds (iterate step turns a) := by
  induction turns generalizing a with
  | zero => exact succeeds_pure a
  | succ turns ih =>
    refine (h a).bind fun next => ?_
    cases next with
    | none => exact succeeds_pure a
    | some next => exact ih next

variable [Reading σ]

private theorem succeeds_place : Succeeds (place : Parser σ Cursor) :=
  fun state => ⟨cursor state, state, rfl⟩

private theorem succeeds_advance : Succeeds (advance : Parser σ Token) :=
  fun state => ⟨(cursor state).current, move state (cursor state).advance, rfl⟩

private theorem succeeds_currentKind : Succeeds (currentKind : Parser σ TokenKind) :=
  succeeds_place.bind fun _ => succeeds_pure _

private theorem succeeds_kindAt (n : Nat) : Succeeds (kindAt n : Parser σ TokenKind) :=
  succeeds_place.bind fun _ => succeeds_pure _

private theorem succeeds_check (kind : TokenKind) : Succeeds (check kind : Parser σ Bool) :=
  succeeds_currentKind.bind fun _ => succeeds_pure _

private theorem succeeds_repeating {step : α → Parser σ (Option α)} (h : ∀ a, Succeeds (step a))
    (a : α) :
    Succeeds (repeating step a) :=
  succeeds_place.bind fun _ => succeeds_iterate h _ a

private theorem succeeds_modifiers : Succeeds (modifiers : Parser σ Modifiers) := by
  refine succeeds_repeating (fun found => succeeds_currentKind.bind fun kind => ?_) _
  split
  · exact succeeds_advance.bind fun _ => succeeds_pure _
  · exact succeeds_pure _

private theorem succeeds_scanQualifier (u : Unit) :
    Succeeds (scanQualifier u : Parser σ (Option Unit)) :=
  (succeeds_check _).bind fun _ => (succeeds_kindAt 1).bind fun _ =>
    .ite (succeeds_advance.bind fun _ => succeeds_advance.bind fun _ => succeeds_pure _)
      (succeeds_pure _)

private theorem succeeds_scanDimension (u : Unit) :
    Succeeds (scanDimension u : Parser σ (Option Unit)) :=
  (succeeds_check _).bind fun _ => (succeeds_kindAt 1).bind fun _ =>
    .ite (succeeds_advance.bind fun _ => succeeds_advance.bind fun _ => succeeds_pure _)
      (succeeds_pure _)

/-- The scan over a type is never refused: it says that there is none. -/
theorem succeeds_scanType : Succeeds (scanType : Parser σ Bool) := by
  refine .bind (succeeds_currentKind.bind fun kind => ?_) fun _ => .ite
    ((succeeds_repeating succeeds_scanDimension ()).bind fun _ => succeeds_pure _) (succeeds_pure _)
  split
  · exact .ite (succeeds_pure _) (succeeds_advance.bind fun _ => succeeds_pure _)
  · exact succeeds_advance.bind fun _ => (succeeds_repeating succeeds_scanQualifier ()).bind
      fun _ =>
      succeeds_pure _
  · exact succeeds_pure _

/-! ## Steps that leave all but the cursor alone -/

/-- A step over a cursor, and the same step over states with more in them. -/
def Lifts (p : Parser Cursor α) (q : Parser σ α) : Prop :=
  ∀ state, q.run state = match p.run (cursor state) with
    | .ok a place => .ok a (move state place)
    | .error error place => .error error (move state place)

private theorem lifts_pure (a : α) : Lifts (pure a) (pure a : Parser σ α) :=
  fun state => congrArg (EStateM.Result.ok a) (move_cursor state).symm

/-- Steps in sequence leave all but the cursor alone if each of them does. -/
theorem Lifts.bind {p : Parser Cursor α} {q : Parser σ α} {k : α → Parser Cursor β}
    {l : α → Parser σ β} (h : Lifts p q) (hk : ∀ a, Lifts (k a) (l a)) :
    Lifts (p >>= k) (q >>= l) := by
  intro state
  rw [EStateM.run_bind, EStateM.run_bind, h state]
  cases p.run (cursor state) with
  | error error place => rfl
  | ok a place =>
    simp only [hk a (move state place), cursor_move]
    cases (k a).run place <;> simp only [move_move]

/-- A branch leaves all but the cursor alone if both sides do. -/
theorem Lifts.ite {P : Prop} [Decidable P] {p p' : Parser Cursor α} {q q' : Parser σ α}
    (h : Lifts p q) (h' : Lifts p' q') :
    Lifts (if P then p else p') (if P then q else q') := by
  split
  · exact h
  · exact h'

/-- The place is that of the cursor. -/
theorem lifts_place : Lifts place (place : Parser σ Cursor) :=
  fun state => congrArg (EStateM.Result.ok (cursor state)) (move_cursor state).symm

private theorem lifts_goTo (place : Cursor) : Lifts (goTo place) (goTo place : Parser σ Unit) :=
  fun _ => rfl

private theorem lifts_throw (error : ParseError) : Lifts (throw error) (throw error : Parser σ α) :=
  fun state => congrArg (EStateM.Result.error error) (move_cursor state).symm

/-- The next token is that of the cursor. -/
theorem lifts_current : Lifts current (current : Parser σ Token) :=
  lifts_place.bind fun _ => lifts_pure _

theorem lifts_currentKind : Lifts currentKind (currentKind : Parser σ TokenKind) :=
  lifts_place.bind fun _ => lifts_pure _

theorem lifts_currentSpan : Lifts currentSpan (currentSpan : Parser σ Span) :=
  lifts_place.bind fun _ => lifts_pure _

/-- A token further ahead is that of the cursor. -/
theorem lifts_kindAt (n : Nat) : Lifts (kindAt n) (kindAt n : Parser σ TokenKind) :=
  lifts_place.bind fun _ => lifts_pure _

/-- Taking a token moves the cursor and nothing else. -/
theorem lifts_advance : Lifts advance (advance : Parser σ Token) :=
  lifts_place.bind fun _ => (lifts_goTo _).bind fun _ => lifts_pure _

private theorem lifts_unexpected (expected : Expectation) :
    Lifts (unexpected expected) (unexpected expected : Parser σ α) :=
  lifts_current.bind fun _ => lifts_throw _

/-- A question about the next token is answered by the cursor. -/
theorem lifts_check (kind : TokenKind) : Lifts (check kind) (check kind : Parser σ Bool) :=
  lifts_currentKind.bind fun _ => lifts_pure _

theorem lifts_checkPunctuator (punctuator : Punctuator) :
    Lifts (checkPunctuator punctuator) (checkPunctuator punctuator : Parser σ Bool) :=
  lifts_check _

theorem lifts_checkIdentifier (text : String) :
    Lifts (checkIdentifier text) (checkIdentifier text : Parser σ Bool) :=
  lifts_current.bind fun _ => lifts_pure _

private theorem lifts_eat (kind : TokenKind) : Lifts (eat kind) (eat kind : Parser σ Bool) :=
  (lifts_check kind).bind fun _ => .ite (lifts_advance.bind fun _ => lifts_pure _) (lifts_pure _)

theorem lifts_eatPunctuator (punctuator : Punctuator) :
    Lifts (eatPunctuator punctuator) (eatPunctuator punctuator : Parser σ Bool) :=
  lifts_eat _

theorem lifts_eatKeyword (keyword : Keyword) :
    Lifts (eatKeyword keyword) (eatKeyword keyword : Parser σ Bool) :=
  lifts_eat _

private theorem lifts_expect (kind : TokenKind) (expected : Expectation) :
    Lifts (expect kind expected) (expect kind expected : Parser σ Token) :=
  (lifts_check kind).bind fun _ => .ite lifts_advance (lifts_unexpected _)

/-- A punctuator is taken or refused by the cursor alone. -/
theorem lifts_expectPunctuator (punctuator : Punctuator) :
    Lifts (expectPunctuator punctuator) (expectPunctuator punctuator : Parser σ Token) :=
  lifts_expect _ _

theorem lifts_expectKeyword (keyword : Keyword) :
    Lifts (expectKeyword keyword) (expectKeyword keyword : Parser σ Token) :=
  lifts_expect _ _

theorem lifts_expectIdentifier : Lifts expectIdentifier (expectIdentifier : Parser σ Token) :=
  lifts_expect _ _

/-! ## Repetition and lookahead -/

private theorem lifts_iterate {step : α → Parser Cursor (Option α)}
    {step' : α → Parser σ (Option α)}
    (h : ∀ a, Lifts (step a) (step' a)) (turns : Nat) (a : α) :
    Lifts (iterate step turns a) (iterate step' turns a) := by
  induction turns generalizing a with
  | zero => exact lifts_pure a
  | succ turns ih =>
    refine (h a).bind fun next => ?_
    cases next with
    | none => exact lifts_pure a
    | some next => exact ih next

private theorem lifts_repeating {step : α → Parser Cursor (Option α)}
    {step' : α → Parser σ (Option α)}
    (h : ∀ a, Lifts (step a) (step' a)) (a : α) :
    Lifts (repeating step a) (repeating step' a) :=
  lifts_place.bind fun _ => lifts_iterate h _ a

private theorem lifts_lookingAhead {look : Parser Cursor α} {look' : Parser σ α}
    (h : Lifts look look') :
    Lifts (lookingAhead look) (lookingAhead look') :=
  lifts_place.bind fun start => h.bind fun _ => (lifts_goTo start).bind fun _ => lifts_pure _

/-- Modifiers are read by the cursor alone, in as many turns as it has tokens. -/
theorem lifts_modifiers : Lifts modifiers (modifiers : Parser σ Modifiers) := by
  refine lifts_repeating (fun found => lifts_currentKind.bind fun kind => ?_) _
  split
  · exact lifts_advance.bind fun _ => lifts_pure _
  · exact lifts_pure _

private theorem lifts_scanQualifier (u : Unit) :
    Lifts (scanQualifier u) (scanQualifier u : Parser σ (Option Unit)) :=
  (lifts_checkPunctuator .dot).bind fun _ => (lifts_kindAt 1).bind fun _ =>
    .ite (lifts_advance.bind fun _ => lifts_advance.bind fun _ => lifts_pure _) (lifts_pure _)

private theorem lifts_scanDimension (u : Unit) :
    Lifts (scanDimension u) (scanDimension u : Parser σ (Option Unit)) :=
  (lifts_checkPunctuator .lbracket).bind fun _ => (lifts_kindAt 1).bind fun _ =>
    .ite (lifts_advance.bind fun _ => lifts_advance.bind fun _ => lifts_pure _) (lifts_pure _)

private theorem lifts_scanElement : Lifts scanElement (scanElement : Parser σ Bool) := by
  refine lifts_currentKind.bind fun kind => ?_
  split
  · exact .ite (lifts_pure _) (lifts_advance.bind fun _ => lifts_pure _)
  · exact lifts_advance.bind fun _ => (lifts_repeating lifts_scanQualifier ()).bind fun _ =>
      lifts_pure _
  · exact lifts_pure _

/-- The reading ahead over a type needs a cursor and nothing else. -/
theorem lifts_scanType : Lifts scanType (scanType : Parser σ Bool) :=
  lifts_scanElement.bind fun _ => .ite
    ((lifts_repeating lifts_scanDimension ()).bind fun _ => lifts_pure _) (lifts_pure _)

/-- Whether a declaration starts is seen with a cursor and nothing else. -/
theorem lifts_atDeclaration : Lifts atDeclaration (atDeclaration : Parser σ Bool) :=
  lifts_lookingAhead <| lifts_modifiers.bind fun _ => lifts_scanType.bind fun _ =>
    .ite (lifts_check .identifier) (lifts_pure _)

/-- Whether a cast starts is seen with a cursor and nothing else. -/
theorem lifts_atCast : Lifts atCast (atCast : Parser σ Bool) :=
  lifts_lookingAhead <| lifts_advance.bind fun _ => lifts_currentKind.bind fun _ =>
    lifts_scanType.bind fun _ => .ite ((lifts_eatPunctuator .rparen).bind fun _ =>
      .ite (lifts_currentKind.bind fun _ => lifts_pure _) (lifts_pure _)) (lifts_pure _)

/-! ## The state after looking ahead -/

/-- Looking ahead with steps that only take tokens and are never refused leaves the state, with all
that is in it, as it was. -/
theorem run_of_lifts_lookingAhead {look : Parser Cursor α} {q : Parser σ α}
    (h : Lifts (lookingAhead look) q) (hs : Succeeds look) (state : σ) :
    ∃ seen, q.run state = .ok seen state := by
  obtain ⟨seen, place, hr⟩ := hs (cursor state)
  refine ⟨seen, ?_⟩
  rw [h state, run_lookingAhead, hr]
  exact congrArg (EStateM.Result.ok seen) (move_cursor state)

/-- To look whether a declaration follows leaves the whole state as it was. -/
theorem run_atDeclaration (state : σ) : ∃ found, atDeclaration.run state = .ok found state :=
  run_of_lifts_lookingAhead lifts_atDeclaration (succeeds_modifiers.bind fun _ =>
    succeeds_scanType.bind fun _ => .ite (succeeds_check .identifier) (succeeds_pure _)) state

/-- To look whether a cast follows leaves the whole state as it was. -/
theorem run_atCast (state : σ) : ∃ found, atCast.run state = .ok found state :=
  have hclose : Succeeds (eatPunctuator .rparen : Parser Cursor Bool) :=
    (succeeds_check _).bind fun _ =>
      .ite (succeeds_advance.bind fun _ => succeeds_pure _) (succeeds_pure _)
  run_of_lifts_lookingAhead lifts_atCast (succeeds_advance.bind fun _ =>
    succeeds_currentKind.bind fun _ => succeeds_scanType.bind fun _ => .ite (hclose.bind fun _ =>
      .ite (succeeds_currentKind.bind fun _ => succeeds_pure _) (succeeds_pure _))
      (succeeds_pure _)) state

end JavaFold.Grammar
