import JavaFold.Grammar

/-!
# Readings of words

What the grammar sees of a token is its class and, where the class leaves it open, its text: a word.
Productions are studied on rows of words without places, which the end of the source follows
(`Cursor.reading`). The outcome of a production is what it gives and the words it leaves, or nothing
if it is refused, for whatever reason.

A repeated step is followed from both sides: `outcome_repeating_of_loops` runs it, and
`repeating_sound` carries an invariant through it up to the point where it declines.
-/

namespace JavaFold

/-- What the grammar sees of a token. -/
inductive Word where
  | identifier (text : String)
  | keyword (keyword : Keyword)
  | number (text : String)
  | character (text : String)
  | string (text : String)
  | punctuator (punctuator : Punctuator)
  deriving DecidableEq, Repr

namespace Word

/-- The class of a word. -/
def kind : Word → TokenKind
  | identifier _ => .identifier
  | keyword k => .keyword k
  | number _ => .number
  | character _ => .character
  | string _ => .string
  | punctuator p => .punctuator p

/-- A word as it is written. -/
def text : Word → String
  | identifier t | number t | character t | string t => t
  | keyword k => k.text
  | punctuator p => p.text

/-- The token of a word, standing nowhere. -/
def token (word : Word) : Token := ⟨word.kind, word.text, .nowhere⟩

/-- No word is the end of the tokens, so what stands before the end is never empty by mistake. -/
theorem kind_ne_endOfFile (word : Word) : word.kind ≠ .endOfFile := by
  cases word <;> simp [kind]

/-- A word reads as an identifier whatever its spelling. -/
theorem kind_eq_identifier {word : Word} : word.kind = .identifier ↔ ∃ t, word = .identifier t := by
  cases word <;> simp [kind]

/-- Only the keyword itself reads as a keyword. -/
theorem kind_eq_keyword {word : Word} {k : Keyword} :
    word.kind = .keyword k ↔ word = .keyword k := by
  cases word <;> simp [kind]

/-- Only the punctuator itself reads as a punctuator. -/
theorem kind_eq_punctuator {word : Word} {p : Punctuator} :
    word.kind = .punctuator p ↔ word = .punctuator p := by
  cases word <;> simp [kind]

@[simp] theorem kind_token (word : Word) : word.token.kind = word.kind := rfl

@[simp] theorem span_token (word : Word) : word.token.span = .nowhere := rfl

@[simp] theorem text_token (word : Word) : word.token.text = word.text := rfl

end Word

/-- The class of the first of some words, or the end of the source. -/
def headKind : List Word → TokenKind
  | [] => .endOfFile
  | word :: _ => word.kind

/-- Where no word is left, the end is seen. -/
@[simp] theorem headKind_nil : headKind [] = .endOfFile := rfl

@[simp] theorem headKind_cons (word : Word) (words : List Word) :
    headKind (word :: words) = word.kind := rfl

/-- The tokens of some words, with the one that closes the source. -/
def tokensOf (words : List Word) : List Token :=
  words.map Word.token ++ [.endOfFile 0]

@[simp] theorem tokensOf_cons (word : Word) (words : List Word) :
    tokensOf (word :: words) = word.token :: tokensOf words := rfl

@[simp] theorem tokensOf_nil : tokensOf [] = [.endOfFile 0] := rfl

/-- The state in which some words are left to read. -/
def Cursor.reading (words : List Word) : Cursor :=
  ⟨.nowhere, tokensOf words⟩

@[simp] theorem Cursor.rest_reading (words : List Word) :
    (Cursor.reading words).rest = tokensOf words := rfl

/-- The tokens of some words are one more, for the end. -/
@[simp] theorem length_tokensOf (words : List Word) :
    (tokensOf words).length = words.length + 1 := by
  simp [tokensOf]

/-- What a production gives and leaves, if it is not refused. -/
def Parser.outcome {α : Type} (production : Parser Cursor α) (cursor : Cursor) :
    Option (α × Cursor) :=
  match production.run cursor with
  | .ok value cursor => some (value, cursor)
  | .error .. => none

namespace Grammar

open Cursor

variable {α β : Type} {ws rest : List Word} {cursor : Cursor}

/-! ## Sequences -/

@[simp] theorem outcome_pure (a : α) (cursor : Cursor) :
    (pure a : Parser Cursor α).outcome cursor = some (a, cursor) := rfl

/-- Productions in sequence give what the second gives after the first, and nothing if either is
refused. -/
@[simp] theorem outcome_bind (p : Parser Cursor α) (f : α → Parser Cursor β) (cursor : Cursor) :
    (p >>= f).outcome cursor = (p.outcome cursor).bind fun result =>
        (f result.1).outcome result.2 := by
  simp only [Parser.outcome, EStateM.run_bind]
  cases p.run cursor <;> rfl

@[simp] theorem outcome_map (f : α → β) (p : Parser Cursor α) (cursor : Cursor) :
    (f <$> p).outcome cursor = (p.outcome cursor).map fun result => (f result.1, result.2) := by
  rw [← bind_pure_comp, outcome_bind]
  cases p.outcome cursor <;> rfl

/-- A branch gives what the production gives that it takes. -/
@[simp] theorem outcome_ite (b : Prop) [Decidable b] (p q : Parser Cursor α) (cursor : Cursor) :
    (if b then p else q).outcome cursor = if b then p.outcome cursor else q.outcome cursor := by
  split <;> rfl

@[simp] theorem outcome_place (cursor : Cursor) :
    place.outcome cursor = some (cursor, cursor) := rfl

@[simp] theorem outcome_goTo (place cursor : Cursor) :
    (goTo place).outcome cursor = some ((), place) := rfl

/-- An unexpected token is a refusal. -/
@[simp] theorem outcome_unexpected (expected : Expectation) (cursor : Cursor) :
    (unexpected expected : Parser Cursor α).outcome cursor = none := rfl

/-- A construct that is not covered is a refusal. -/
@[simp] theorem outcome_unsupported (construct : Construct) (cursor : Cursor) :
    (unsupported construct : Parser Cursor α).outcome cursor = none := rfl

/-! ## Single words -/

/-- Over words, the next token is of the kind of the first word, or the end. -/
@[simp] theorem kind_current (ws : List Word) : (reading ws).current.kind = headKind ws := by
  cases ws <;> rfl

@[simp] theorem span_current (ws : List Word) : (reading ws).current.span = .nowhere := by
  cases ws <;> rfl

@[simp] theorem outcome_current (ws : List Word) :
    current.outcome (reading ws) = some ((reading ws).current, reading ws) := rfl

@[simp] theorem outcome_currentKind (ws : List Word) :
    currentKind.outcome (reading ws) = some (headKind ws, reading ws) := by
  cases ws <;> rfl

@[simp] theorem outcome_currentSpan (ws : List Word) :
    currentSpan.outcome (reading ws) = some (.nowhere, reading ws) := by
  cases ws <;> rfl

/-- Over words, a token further ahead is the word there, or the end. -/
@[simp] theorem kindAt_reading (ws : List Word) (n : Nat) :
    (reading ws).kindAt n = headKind (ws.drop n) := by
  rw [Cursor.kindAt, rest_reading]
  induction ws generalizing n with
  | nil => cases n <;> rfl
  | cons w ws ih =>
    cases n with
    | zero => rfl
    | succ n => exact ih n

@[simp] theorem outcome_kindAt (ws : List Word) (n : Nat) :
    (Grammar.kindAt n).outcome (reading ws) = some (headKind (ws.drop n), reading ws) := by
  rw [← kindAt_reading]
  rfl

/-- Taking a token takes the first word. -/
@[simp] theorem outcome_advance (w : Word) (ws : List Word) :
    Grammar.advance.outcome (reading (w :: ws)) = some (w.token, reading ws) := by
  cases ws <;> rfl

/-- A question for a kind is answered by the first word, and nothing is taken. -/
@[simp] theorem outcome_check (kind : TokenKind) (ws : List Word) :
    (check kind).outcome (reading ws) = some (headKind ws == kind, reading ws) := by
  cases ws <;> rfl

@[simp] theorem outcome_checkPunctuator (p : Punctuator) (ws : List Word) :
    (checkPunctuator p).outcome (reading ws) =
      some (headKind ws == .punctuator p, reading ws) :=
  outcome_check _ ws

/-- Looking ahead gives what is seen, and leaves everything in place. -/
@[simp] theorem outcome_lookingAhead (look : Parser Cursor α) (cursor : Cursor) :
    (lookingAhead look).outcome cursor = (look.outcome cursor).map
        fun seen => (seen.1, cursor) := by
  simp only [lookingAhead, outcome_bind, outcome_place, outcome_goTo, outcome_pure,
      Option.bind_some,
    Option.map_eq_bind]
  rfl

@[simp] theorem absent_eq : (Builder.absent Cursor : SourceTree) = .absent := rfl

/-- A tree is made without a refusal, since it has no arena to fit into. -/
@[simp] theorem outcome_build (span : Span) (kind : NodeKind String SourceTree) (cursor : Cursor) :
    (Builder.build span kind).outcome cursor = some (.node span kind, cursor) := rfl

@[simp] theorem outcome_node (start : Span) (kind : NodeKind String SourceTree) (ws : List Word) :
    (node start kind).outcome (reading ws) =
      some (.node (start.merge .nowhere) kind, reading ws) := rfl

/-- Trees that are read from words stand nowhere, and so do the nodes over them. -/
@[simp] theorem merge_nowhere : Span.nowhere.merge .nowhere = .nowhere := rfl

/-- A kind other than the end that is seen next is that of a first word. -/
theorem exists_cons_of_headKind {kind : TokenKind} (h : headKind ws = kind)
    (hk : kind ≠ .endOfFile) : ∃ w rest, ws = w :: rest ∧ w.kind = kind := by
  cases ws with
  | nil => exact absurd h.symm hk
  | cons w rest => exact ⟨w, rest, rfl, h⟩

/-- A punctuator that is seen next is the first word. -/
theorem exists_punctuator_of_headKind {p : Punctuator} (h : headKind ws = .punctuator p) :
    ∃ rest, ws = .punctuator p :: rest := by
  obtain ⟨w, rest, rfl, hw⟩ := exists_cons_of_headKind h nofun
  exact ⟨rest, by rw [Word.kind_eq_punctuator.1 hw]⟩

/-- A keyword that is seen next is the first word. -/
theorem exists_keyword_of_headKind {k : Keyword} (h : headKind ws = .keyword k) :
    ∃ rest, ws = .keyword k :: rest := by
  obtain ⟨w, rest, rfl, hw⟩ := exists_cons_of_headKind h nofun
  exact ⟨rest, by rw [Word.kind_eq_keyword.1 hw]⟩

private theorem outcome_eat (kind : TokenKind) (ws : List Word) (hk : kind ≠ .endOfFile) :
    (eat kind).outcome (reading ws) =
      if headKind ws = kind then some (true, reading ws.tail) else some (false, reading ws) := by
  simp only [eat, outcome_bind, outcome_check, Option.bind_some, outcome_ite, beq_iff_eq]
  by_cases h : headKind ws = kind
  · rw [if_pos h, if_pos h]
    cases ws with
    | nil => exact absurd h.symm hk
    | cons w ws => simp
  · rw [if_neg h, if_neg h, outcome_pure]

/-- A punctuator is taken if it is the first word; if not, nothing is. -/
@[simp] theorem outcome_eatPunctuator (p : Punctuator) (ws : List Word) :
    (eatPunctuator p).outcome (reading ws) =
      if headKind ws = .punctuator p then some (true, reading ws.tail)
      else some (false, reading ws) :=
  outcome_eat _ ws nofun

/-- A keyword is taken if it is the first word; if not, nothing is. -/
@[simp] theorem outcome_eatKeyword (k : Keyword) (ws : List Word) :
    (eatKeyword k).outcome (reading ws) =
      if headKind ws = .keyword k then some (true, reading ws.tail)
      else some (false, reading ws) :=
  outcome_eat _ ws nofun

private theorem outcome_expect (kind : TokenKind) (expected : Expectation) (ws : List Word) :
    (expect kind expected).outcome (reading ws) =
      if headKind ws = kind then Grammar.advance.outcome (reading ws) else none := by
  simp only [expect, outcome_bind, outcome_check, Option.bind_some, outcome_ite, beq_iff_eq,
    outcome_unexpected]

/-- A punctuator that is expected and there is taken. -/
@[simp] theorem outcome_expectPunctuator (p : Punctuator) (ws : List Word) :
    (expectPunctuator p).outcome (reading (.punctuator p :: ws)) =
      some ((Word.punctuator p).token, reading ws) := by
  rw [expectPunctuator, outcome_expect, headKind_cons, Word.kind, if_pos rfl, outcome_advance]

/-- A keyword that is expected and there is taken. -/
@[simp] theorem outcome_expectKeyword (k : Keyword) (ws : List Word) :
    (expectKeyword k).outcome (reading (.keyword k :: ws)) =
      some ((Word.keyword k).token, reading ws) := by
  rw [expectKeyword, outcome_expect, headKind_cons, Word.kind, if_pos rfl, outcome_advance]

@[simp] theorem outcome_expectIdentifier (t : String) (ws : List Word) :
    expectIdentifier.outcome (reading (.identifier t :: ws)) =
      some ((Word.identifier t).token, reading ws) := by
  rw [expectIdentifier, outcome_expect, headKind_cons, Word.kind, if_pos rfl, outcome_advance]

/-- A word that was asked for was there. -/
theorem expect_eq_some {kind : TokenKind} {expected : Expectation} {token : Token}
    (h : (expect kind expected).outcome (reading ws) = some (token, cursor))
    (hk : kind ≠ .endOfFile) :
    ∃ w rest, ws = w :: rest ∧ w.kind = kind ∧ token = w.token ∧ cursor = reading rest := by
  rw [outcome_expect] at h
  split at h
  next hw =>
    cases ws with
    | nil => exact absurd hw.symm hk
    | cons w ws =>
      rw [outcome_advance] at h
      cases h
      exact ⟨w, ws, rfl, hw, rfl, rfl⟩
  next => cases h

/-- Where an expected punctuator was taken, the words started with it. -/
theorem expectPunctuator_eq_some {p : Punctuator} {token : Token}
    (h : (expectPunctuator p).outcome (reading ws) = some (token, cursor)) :
    ∃ rest, ws = .punctuator p :: rest ∧ token.span = .nowhere ∧ cursor = reading rest := by
  obtain ⟨w, rest, rfl, hw, rfl, rfl⟩ := expect_eq_some h nofun
  cases Word.kind_eq_punctuator.1 hw
  exact ⟨rest, rfl, rfl, rfl⟩

/-- Where an expected keyword was taken, the words started with it. -/
theorem expectKeyword_eq_some {k : Keyword} {token : Token}
    (h : (expectKeyword k).outcome (reading ws) = some (token, cursor)) :
    ∃ rest, ws = .keyword k :: rest ∧ token.span = .nowhere ∧ cursor = reading rest := by
  obtain ⟨w, rest, rfl, hw, rfl, rfl⟩ := expect_eq_some h nofun
  cases Word.kind_eq_keyword.1 hw
  exact ⟨rest, rfl, rfl, rfl⟩

/-- Taking a kind where it stands either took a first word of that kind or took nothing before
another kind. -/
theorem eat_eq_some {kind : TokenKind} {taken : Bool}
    (h : (eat kind).outcome (reading ws) = some (taken, cursor)) (hk : kind ≠ .endOfFile) :
    (taken = true ∧ ∃ w rest, ws = w :: rest ∧ w.kind = kind ∧ cursor = reading rest) ∨
      (taken = false ∧ headKind ws ≠ kind ∧ cursor = reading ws) := by
  rw [outcome_eat kind ws hk] at h
  split at h
  next hw =>
    cases ws with
    | nil => exact absurd hw.symm hk
    | cons w ws =>
      cases h
      exact .inl ⟨rfl, w, ws, rfl, hw, rfl⟩
  next hw =>
    cases h
    exact .inr ⟨rfl, hw, rfl⟩

/-- Taking a punctuator where it stands either took it or took nothing before something else. -/
theorem eatPunctuator_eq_some {p : Punctuator} {taken : Bool}
    (h : (eatPunctuator p).outcome (reading ws) = some (taken, cursor)) :
    (taken = true ∧ ∃ rest, ws = .punctuator p :: rest ∧ cursor = reading rest) ∨
      (taken = false ∧ headKind ws ≠ .punctuator p ∧ cursor = reading ws) := by
  rcases eat_eq_some h nofun with ⟨rfl, w, rest, rfl, hw, rfl⟩ | h
  · cases Word.kind_eq_punctuator.1 hw
    exact .inl ⟨rfl, rest, rfl, rfl⟩
  · exact .inr h

/-- Taking a keyword where it stands either took it or took nothing before something else. -/
theorem eatKeyword_eq_some {k : Keyword} {taken : Bool}
    (h : (eatKeyword k).outcome (reading ws) = some (taken, cursor)) :
    (taken = true ∧ ∃ rest, ws = .keyword k :: rest ∧ cursor = reading rest) ∨
      (taken = false ∧ headKind ws ≠ .keyword k ∧ cursor = reading ws) := by
  rcases eat_eq_some h nofun with ⟨rfl, w, rest, rfl, hw, rfl⟩ | h
  · cases Word.kind_eq_keyword.1 hw
    exact .inl ⟨rfl, rest, rfl, rfl⟩
  · exact .inr h

/-! ## Repetition -/

/-- Some turns of a step lead from one value and its rest to another one. -/
inductive Loops (step : α → Parser Cursor (Option α)) : α → List Word → α → List Word → Prop where
  /-- No turn. -/
  | refl {v : α} {ws : List Word} : Loops step v ws v ws
  /-- One turn before the others. -/
  | head {v x w : α} {ws vs us : List Word}
    (h : (step v).outcome (reading ws) = some (some x, reading vs)) (hlt : vs.length < ws.length)
    (hl : Loops step x vs w us) : Loops step v ws w us

namespace Loops

variable {step : α → Parser Cursor (Option α)} {v w x : α} {vs us : List Word}

/-- One more turn after the others. -/
theorem snoc (hl : Loops step v ws w vs)
    (h : (step w).outcome (reading vs) = some (some x, reading us)) (hlt : us.length < vs.length) :
    Loops step v ws x us := by
  induction hl with
  | refl => exact .head h hlt .refl
  | head h' hlt' _ ih => exact .head h' hlt' (ih h hlt)

/-- Every turn of a loop takes a word, so there are no more turns than words. -/
theorem length_le (hl : Loops step v ws w vs) : vs.length ≤ ws.length := by
  induction hl with
  | refl => exact Nat.le_refl _
  | head _ hlt _ ih => omega

/-- A loop whose turns are known runs through them if it has that many turns, and then declines. -/
private theorem outcome_iterate (hl : Loops step v ws w vs)
    (hd : (step w).outcome (reading vs) = some (none, reading vs)) {turns : Nat}
    (ht : ws.length ≤ turns + vs.length) :
    (iterate step turns v).outcome (reading ws) = some (w, reading vs) := by
  induction hl generalizing turns with
  | refl =>
    cases turns with
    | zero => rfl
    | succ turns =>
      rw [iterate, outcome_bind, hd]
      rfl
  | head h hlt hl ih =>
    have := hl.length_le
    obtain ⟨turns, rfl⟩ : ∃ k, turns = k + 1 := ⟨turns - 1, by omega⟩
    rw [iterate, outcome_bind, h]
    exact ih hd (by omega)

end Loops

/-- A step is repeated until it declines. -/
theorem outcome_repeating_of_loops {step : α → Parser Cursor (Option α)} {v w : α} {vs : List Word}
    (hl : Loops step v ws w vs) (hd : (step w).outcome (reading vs) = some (none, reading vs)) :
    (repeating step v).outcome (reading ws) = some (w, reading vs) := by
  rw [repeating, outcome_bind, outcome_place, Option.bind_some, rest_reading, length_tokensOf]
  exact hl.outcome_iterate hd (by omega)

/-- What a step that takes words keeps holds of what its repetition gives, and at the end the step
declines. -/
theorem repeating_sound {step : α → Parser Cursor (Option α)} (Inv : α → List Word → Prop)
    (hstep : ∀ v ws x cursor, Inv v ws → (step v).outcome (reading ws) = some (some x, cursor) →
      ∃ rest, cursor = reading rest ∧ rest.length < ws.length ∧ Inv x rest)
    (hstop : ∀ v ws cursor, Inv v ws → (step v).outcome (reading ws) = some (none, cursor) →
      cursor = reading ws)
    {v w : α} (hv : Inv v ws)
    (h : (repeating step v).outcome (reading ws) = some (w, cursor)) :
    ∃ rest, cursor = reading rest ∧ Inv w rest ∧
      (step w).outcome (reading rest) = some (none, reading rest) := by
  rw [repeating, outcome_bind, outcome_place, Option.bind_some, rest_reading, length_tokensOf] at h
  have hturns : ws.length < ws.length + 1 := Nat.lt_succ_self _
  revert hturns h
  generalize ws.length + 1 = turns
  intro h hturns
  induction turns generalizing v ws with
  | zero => omega
  | succ turns ih =>
    rw [iterate, outcome_bind] at h
    obtain ⟨⟨next, middle⟩, hs, h⟩ := Option.bind_eq_some_iff.1 h
    cases next with
    | none =>
      cases hstop v ws middle hv hs
      cases h
      exact ⟨ws, rfl, hv, hs⟩
    | some x =>
      obtain ⟨rest, rfl, hlt, hx⟩ := hstep v ws x middle hv hs
      exact ih hx h (by omega)

end Grammar

end JavaFold
