import JavaFold.Proofs.Arena.Filling
import JavaFold.Proofs.Grammar.Law
import JavaFold.Proofs.Grammar.Places
import JavaFold.Proofs.Token.Cut

/-!
# Looking ahead agrees with reading

The scan over a type and the production of types are two recognisers of the same tokens: one takes
what the other takes, and both stop at the same token (`scanType_type_cases`). So what the lookahead
promises is read afterwards: a type and a closing parenthesis where a cast was seen, and modifiers,
a type and an identifier where a declaration was seen. Nothing is assumed of the place in the token
list but that the end of the source follows. What is read over trees is read into an arena that has
room for the nodes (`LooksAhead`).
-/

namespace JavaFold.Grammar

open Cursor Reading

variable {α β : Type} {ws : List Word} {c c' : Cursor} {tokens rest : List Token}

/-! ## The production on words -/

private theorem exists_outcome_name (text : String) (ws : List Word) :
    ∃ tree, name.outcome (reading (.identifier text :: ws)) =
      some (tree, reading (skipQualifiers ws)) := by
  obtain ⟨tree, hl⟩ := exists_loops_qualifiers (qualifiedStep .nowhere)
    (fun v text us => ⟨_, outcome_qualifiedStep v text us⟩) (.node .nowhere (.simpleName text)) ws
  have hrepeat := outcome_repeating_of_loops hl
    (outcome_qualifiedStep_none tree (stopsName_skipQualifiers ws))
  exact ⟨tree, by simp [name, hrepeat]⟩

private theorem exists_outcome_dimensions (component : SourceTree) (ws : List Word) :
    ∃ type, (dimensions .nowhere component).outcome (reading ws) =
      some (type, reading (skipDimensions ws)) := by
  obtain ⟨type, hl⟩ := exists_loops_dimensions (dimensionStep .nowhere)
    (fun v us => ⟨_, outcome_dimensionStep v us⟩) component ws
  exact ⟨type, outcome_repeating_of_loops hl
    (outcome_dimensionStep_none type (stopsDimensions_skipDimensions ws))⟩

/-- A type is read from words exactly where one is passed, and up to the same word. -/
theorem outcome_type_cases (ws : List Word) :
    (∃ rest tree, skipType ws = some rest ∧
      (type false).outcome (reading ws) = some (tree, reading rest)) ∨
    skipType ws = none ∧ (type false).outcome (reading ws) = none := by
  cases ws with
  | nil => exact .inr ⟨rfl, rfl⟩
  | cons w ws =>
    simp only [type, outcome_bind, outcome_currentSpan, outcome_currentKind, Option.bind_some,
      headKind_cons]
    split
    next primitive hk =>
      cases Word.kind_eq_keyword.1 hk
      by_cases hv : primitive = .void
      · simp [skipType, hv]
      · obtain ⟨type, hd⟩ :=
          exists_outcome_dimensions (.node .nowhere (.primitiveType primitive)) ws
        simp [skipType, hv, primitiveType, hd]
    next hk =>
      obtain ⟨text, rfl⟩ := Word.kind_eq_identifier.1 hk
      obtain ⟨name, hn⟩ := exists_outcome_name text ws
      obtain ⟨type, hd⟩ :=
        exists_outcome_dimensions (.node .nowhere (.simpleType name)) (skipQualifiers ws)
      simp [skipType, hn, hd]
    next hprimitive hidentifier => exact .inr ⟨skipType_eq_none hprimitive hidentifier, rfl⟩

/-! ## Places in a token list -/

/-- A production takes some tokens from the front. -/
def takesTokens : Law Cursor where
  Moves c c' := ∃ n, c' = Cursor.advance^[n] c
  Refuses _ _ := True
  refl _ := ⟨0, rfl⟩
  trans := by
    rintro a _ _ ⟨n, rfl⟩ ⟨m, rfl⟩
    exact ⟨m + n, (Function.iterate_add_apply _ m n a).symm⟩
  advance _ := ⟨1, rfl⟩
  unexpected _ _ := trivial
  unsupported _ _ := trivial
  build _ := trivial

private theorem outcome_eq_some {p : Parser Cursor α} {a : α} :
    p.outcome c = some (a, c') ↔ p.run c = .ok a c' := by
  rw [Parser.outcome]
  cases p.run c <;> simp

private theorem outcome_eq_none {p : Parser Cursor α} :
    p.outcome c = none ↔ ∀ a c', p.run c ≠ .ok a c' := by
  rw [Parser.outcome]
  cases p.run c <;> simp

/-- Unless the end of the source was reached, there are fewer tokens after one was taken. -/
theorem advance_eq_or_length_lt (c : Cursor) :
    c.advance = c ∨ c.advance.rest.length < c.rest.length := by
  unfold Cursor.advance
  split
  next h => exact .inr (by simp [h])
  next => exact .inl rfl

private theorem iterate_advance_eq_or_length_lt (n : Nat) (c : Cursor) :
    Cursor.advance^[n] c = c ∨ (Cursor.advance^[n] c).rest.length < c.rest.length := by
  induction n generalizing c with
  | zero => exact .inl rfl
  | succ n ih =>
    rw [Function.iterate_succ_apply]
    rcases advance_eq_or_length_lt c with hc | hc
    · rw [hc]
      exact ih c
    · rcases ih c.advance with hn | hn
      · rw [hn]
        exact .inr hc
      · exact .inr (hn.trans hc)

/-- The number of tokens that are left tells where the reading stands. -/
theorem eq_of_moves {a b : Cursor} (ha : takesTokens.Moves c a) (hb : takesTokens.Moves c b)
    (hlength : a.rest.length = b.rest.length) : a = b := by
  obtain ⟨n, rfl⟩ := ha
  obtain ⟨m, rfl⟩ := hb
  wlog hle : n ≤ m generalizing n m
  · exact (this m n hlength.symm (Nat.le_of_not_le hle)).symm
  obtain ⟨k, rfl⟩ := Nat.exists_eq_add_of_le' hle
  rw [Function.iterate_add_apply] at hlength ⊢
  rcases iterate_advance_eq_or_length_lt k (Cursor.advance^[n] c) with hk | hk
  · exact hk.symm
  · exact absurd hlength (Nat.ne_of_gt hk)

private theorem moves_of_outcome {p : Parser Cursor α} {a : α} (hp : Obeys takesTokens p)
    (h : p.outcome c = some (a, c')) : takesTokens.Moves c c' := by
  have hmoves := hp c
  rwa [outcome_eq_some.1 h] at hmoves

/-- What is read without places is read with them. -/
theorem Blind.exists_outcome {f : α → β} {p : Parser Cursor α} {q : Parser Cursor β} {b : β}
    {d : Cursor} (h : Blind f p q) (hq : q.outcome c.bare = some (b, d)) :
    ∃ a c', p.outcome c = some (a, c') ∧ f a = b ∧ c'.bare = d := by
  rw [h c, Option.map_eq_some_iff] at hq
  obtain ⟨⟨a, c'⟩, hp, heq⟩ := hq
  cases heq
  exact ⟨a, c', hp, rfl, rfl⟩

private theorem Blind.outcome_eq_none {f : α → β} {p : Parser Cursor α} {q : Parser Cursor β}
    (h : Blind f p q) (hq : q.outcome c.bare = none) : p.outcome c = none := by
  rwa [h c, Option.map_eq_none_iff] at hq

private theorem length_rest_bare (c : Cursor) : c.bare.rest.length = c.rest.length :=
  List.length_map _

/-- Either the scan passes a type and the production reads one, both up to the same token, or the
scan finds none and the production is refused. -/
theorem scanType_type_cases (hc : c.bare = reading ws) :
    (∃ tree c', scanType.run c = .ok true c' ∧ (type false).run c = .ok tree c') ∨
      (∃ c', scanType.run c = .ok false c') ∧ ∀ tree c', (type false).run c ≠ .ok tree c' := by
  have hscan := outcome_scanType ws
  rcases outcome_type_cases ws with ⟨rest, bare, hskip, htype⟩ | ⟨hskip, htype⟩
  · rw [hskip, ← hc] at hscan
    rw [← hc] at htype
    obtain ⟨found, c₁, hscanned, rfl, hc₁⟩ := blind_scanType.exists_outcome hscan
    obtain ⟨tree, c₂, hread, -, hc₂⟩ := (blind_type false).exists_outcome htype
    have heq : c₁ = c₂ := eq_of_moves (moves_of_outcome obeys_scanType hscanned)
      (moves_of_outcome (obeys_type false) hread)
      (by rw [← length_rest_bare, hc₁, ← length_rest_bare c₂, hc₂])
    subst heq
    exact .inl ⟨tree, c₁, outcome_eq_some.1 hscanned, outcome_eq_some.1 hread⟩
  · rw [hskip, ← hc] at hscan
    rw [← hc] at htype
    obtain ⟨found, c', hrun, rfl, -⟩ := blind_scanType.exists_outcome hscan
    exact .inr ⟨⟨c', outcome_eq_some.1 hrun⟩,
      outcome_eq_none.1 ((blind_type false).outcome_eq_none htype)⟩

/-! ## What the lookahead promises -/

section Promises

variable {σ τ : Type} [Reading σ] [Builder σ τ]

/-- What a cast starts with: a type in parentheses. -/
def castHead : Parser σ Token := do
  let _ ← advance
  let _ ← type false
  expectPunctuator .rparen

/-- What a local declaration starts with: modifiers, a type and the name of a variable. -/
def declarationHead : Parser σ τ := do
  let _ ← modifiers
  let _ ← type false
  simpleName

end Promises

private theorem blind_castHead : Blind Token.bare castHead castHead :=
  blind_advance.bind fun _ => (blind_type false).bind fun _ => blind_expectPunctuator .rparen

private theorem blind_declarationHead : Blind Tree.bare declarationHead declarationHead :=
  blind_modifiers.bind fun _ => (blind_type false).bind fun _ => blind_simpleName

private theorem exists_outcome_castHead (h : startsCast ws = true) :
    ∃ close c', castHead.outcome (reading ws) = some (close, c') := by
  cases ws with
  | nil => cases h
  | cons w ws =>
    rw [startsCast_cons] at h
    rcases outcome_type_cases ws with ⟨rest, tree, hskip, htype⟩ | ⟨hskip, -⟩
    · rw [hskip] at h
      obtain ⟨operand, rfl⟩ :=
        exists_punctuator_of_headKind (beq_iff_eq.1 (Bool.and_eq_true_iff.1 h).1)
      simp [castHead, htype]
    · simp [hskip] at h

private theorem exists_outcome_declarationHead (h : startsDeclaration ws = true) :
    ∃ name c', declarationHead.outcome (reading ws) = some (name, c') := by
  obtain ⟨found, hmodifiers⟩ := exists_outcome_modifiers ws
  rw [startsDeclaration] at h
  rcases outcome_type_cases (skipModifiers ws) with ⟨rest, tree, hskip, htype⟩ | ⟨hskip, -⟩
  · rw [hskip] at h
    obtain ⟨w, vs, rfl, hw⟩ := exists_cons_of_headKind (beq_iff_eq.1 h) (by decide)
    obtain ⟨text, rfl⟩ := Word.kind_eq_identifier.1 hw
    simp [declarationHead, hmodifiers, htype]
  · simp [hskip] at h

/-- Where a cast is seen, its type and the parenthesis after it are read. -/
theorem exists_run_castHead (hc : c.bare = reading ws) (h : atCast.run c = .ok true c') :
    ∃ close last, castHead.run c = .ok close last := by
  have hseen := blind_atCast c
  rw [outcome_eq_some.2 h, hc, outcome_atCast] at hseen
  have hcast : startsCast ws = true := congrArg Prod.fst (Option.some.inj hseen)
  obtain ⟨close, last, hread⟩ := exists_outcome_castHead hcast
  rw [← hc] at hread
  obtain ⟨close, last, hread, -⟩ := blind_castHead.exists_outcome hread
  exact ⟨close, last, outcome_eq_some.1 hread⟩

/-- Where a declaration is seen, its modifiers, its type and the first name are read. -/
theorem exists_run_declarationHead (hc : c.bare = reading ws)
    (h : atDeclaration.run c = .ok true c') :
    ∃ name last, declarationHead.run c = .ok name last := by
  have hseen := blind_atDeclaration c
  rw [outcome_eq_some.2 h, hc, outcome_atDeclaration] at hseen
  have hdeclaration : startsDeclaration ws = true := congrArg Prod.fst (Option.some.inj hseen)
  obtain ⟨name, last, hread⟩ := exists_outcome_declarationHead hdeclaration
  rw [← hc] at hread
  obtain ⟨name, last, hread, -⟩ := blind_declarationHead.exists_outcome hread
  exact ⟨name, last, outcome_eq_some.1 hread⟩

/-! ## Looking ahead while an arena is filled -/

/-- A step that only takes tokens leaves the arena as it was. -/
theorem Lifts.run_eq_ok {p : Parser Cursor α} {q : Parser Filling α} {s : Filling} {a : α}
    (h : Lifts p q) (hp : p.run s.cursor = .ok a c) : q.run s = .ok a { s with cursor := c } := by
  have hq := h s
  rw [show p.run (cursor s) = .ok a c from hp] at hq
  exact hq

/-- What a step gives that only takes tokens does not depend on the arena. -/
theorem Lifts.run_cursor {p : Parser Cursor α} {q : Parser Filling α} {s s' : Filling} {a : α}
    (h : Lifts p q) (hq : q.run s = .ok a s') : p.run s.cursor = .ok a s'.cursor := by
  have hlift := h s
  cases hp : p.run s.cursor with
  | ok a' place =>
    rw [show p.run (cursor s) = .ok a' place from hp, hq] at hlift
    cases hlift
    rfl
  | error error place =>
    rw [show p.run (cursor s) = .error error place from hp, hq] at hlift
    cases hlift

theorem Lifts.run_bind {p : Parser Cursor α} {q : Parser Filling α} {l : α → Parser Filling β}
    {s : Filling} {a : α} (h : Lifts p q) (hp : p.run s.cursor = .ok a c) :
    (q >>= l).run s = (l a).run { s with cursor := c } := by
  rw [EStateM.run_bind, h.run_eq_ok hp]

theorem run_bind_eq_ok {σ : Type} {p : Parser σ α} {k : α → Parser σ β} {s s' : σ} {b : β} :
    (p >>= k).run s = .ok b s' ↔ ∃ a middle, p.run s = .ok a middle ∧
        (k a).run middle = .ok b s' := by
  rw [EStateM.run_bind]
  cases p.run s <;> simp

/-- Looking ahead agrees with reading from the same state. -/
structure LooksAhead (s : Filling) : Prop where
  /-- The scan over a type is never refused, and moves the cursor alone. -/
  scanned : ∃ found place, scanType.run s = .ok found { s with cursor := place }
  /-- Given room for its nodes, a type is read exactly if the scan finds one, up to the same place.
  -/
  scan : s.HasRoom (type false) → ∀ place,
    scanType.run s = .ok true { s with cursor := place } ↔
      ∃ id last, (type false).run s = .ok id last ∧ last.cursor = place
  /-- Where an opening parenthesis is seen as a cast, a type and a closing one are read after it. -/
  cast : s.cursor.current.kind = .punctuator .lparen → atCast.run s = .ok true s →
    s.HasRoom castHead → ∃ close last, castHead.run s = .ok close last
  /-- Where a declaration is seen, modifiers, a type and the name of a variable are read. -/
  declaration : atDeclaration.run s = .ok true s → s.HasRoom declarationHead →
    ∃ name last, declarationHead.run s = .ok name last
  /-- To look for a cast or for a declaration leaves the cursor and the arena as they were. -/
  stays : (∃ seen, atCast.run s = .ok seen s) ∧ ∃ seen, atDeclaration.run s = .ok seen s

section Filling

variable {s : Filling}

/-- Reading ahead over a type and reading the type succeed on the same tokens and take the same
ones. -/
private theorem scanType_iff_type (hc : s.cursor.bare = reading ws) (hf : s.arena.Fair)
    (hroom : s.HasRoom (type false)) (place : Cursor) :
    scanType.run s = .ok true { s with cursor := place } ↔
      ∃ id last, (type false).run s = .ok id last ∧ last.cursor = place := by
  rcases scanType_type_cases hc with ⟨tree, c', hscan, htype⟩ | ⟨⟨c', hscan⟩, htype⟩
  · have hscanned := lifts_scanType.run_eq_ok hscan
    rcases (follows_type false).run_cases hf htype with
      ⟨id, arena', hread, -⟩ | ⟨error, filling, hread, hmore⟩
    · have hread : (type false).run s = .ok id ⟨c', arena'⟩ := hread
      simp [hscanned, hread]
    · rw [Filling.HasRoom, show (type false).run s = .error error filling from hread] at hroom
      exact absurd hmore (Nat.not_lt.2 hroom)
  · have hscanned := lifts_scanType.run_eq_ok hscan
    constructor
    · intro h
      cases hscanned.symm.trans h
    · rintro ⟨id, last, hread, -⟩
      obtain ⟨tree, hread⟩ := (follows_type false).exists_run_eq_ok hf hread
      exact absurd hread (htype tree _)

/-- What is seen to be a cast can be read as the head of one, if there is room for its nodes. -/
private theorem exists_run_castHead_filling (hc : s.cursor.bare = reading ws) (hf : s.arena.Fair)
    (h : atCast.run s = .ok true s) (hroom : s.HasRoom castHead) :
    ∃ close last, castHead.run s = .ok close last := by
  obtain ⟨close, last, hread⟩ := exists_run_castHead hc (lifts_atCast.run_cursor h)
  rw [castHead, run_bind_eq_ok] at hread
  obtain ⟨opening, inner, hopening, hread⟩ := hread
  rw [run_bind_eq_ok] at hread
  obtain ⟨tree, c', htype, hclose⟩ := hread
  rw [castHead, lifts_advance.run_bind hopening]
  rw [Filling.HasRoom, castHead, lifts_advance.run_bind hopening] at hroom
  rcases (follows_type false).run_cases hf htype with
    ⟨id, arena', hid, -⟩ | ⟨error, filling, hrefused, hmore⟩
  · rw [EStateM.run_bind, hid]
    exact ⟨close, _, (lifts_expectPunctuator .rparen).run_eq_ok hclose⟩
  · rw [EStateM.run_bind, hrefused] at hroom
    exact absurd hmore (Nat.not_lt.2 hroom)

/-- What is seen to be a declaration can be read as the head of one, if there is room for its nodes.
-/
private theorem exists_run_declarationHead_filling (hc : s.cursor.bare = reading ws)
    (hf : s.arena.Fair)
    (h : atDeclaration.run s = .ok true s) (hroom : s.HasRoom declarationHead) :
    ∃ name last, declarationHead.run s = .ok name last := by
  obtain ⟨name, last, hread⟩ :=
    exists_run_declarationHead hc (lifts_atDeclaration.run_cursor h)
  rw [declarationHead, run_bind_eq_ok] at hread
  obtain ⟨found, typed, hmodifiers, hread⟩ := hread
  rw [run_bind_eq_ok] at hread
  obtain ⟨tree, named, htype, hname⟩ := hread
  rw [declarationHead, lifts_modifiers.run_bind hmodifiers]
  rw [Filling.HasRoom, declarationHead, lifts_modifiers.run_bind hmodifiers] at hroom
  rcases (follows_type false).run_cases hf htype with
    ⟨id, middle, hid, hfair⟩ | ⟨error, filling, hrefused, hmore⟩
  · rw [EStateM.run_bind, hid] at hroom ⊢
    rcases follows_simpleName.run_cases hfair hname with
      ⟨id, arena', hid, -⟩ | ⟨error, filling, hrefused, hmore⟩
    · exact ⟨id, _, hid⟩
    · simp only [hrefused] at hroom
      exact absurd hmore (Nat.not_lt.2 hroom)
  · rw [EStateM.run_bind, hrefused] at hroom
    exact absurd hmore (Nat.not_lt.2 hroom)

end Filling

/-- What is left of a token list are the tokens of words, as long as the end of the source is left.
-/
theorem exists_words_of_suffix (h : tokens.map Token.bare = tokensOf ws) (hs : rest <:+ tokens)
    (hne : rest ≠ []) : ∃ vs, rest.map Token.bare = tokensOf vs := by
  obtain ⟨front, rfl⟩ := hs
  have hlength : front.length ≤ ws.length := by
    have hcount := congrArg List.length h
    have hpos := List.length_pos_iff.2 hne
    simp only [List.length_map, List.length_append, length_tokensOf] at hcount
    omega
  refine ⟨ws.drop front.length, ?_⟩
  have hdrop := congrArg (List.drop front.length) h
  rw [List.map_append, List.drop_left' (List.length_map _)] at hdrop
  rw [hdrop, tokensOf, tokensOf, List.drop_append_of_le_length (by simpa using hlength),
    List.map_drop]

/-- Looking ahead agrees with reading at every place of every source that can be cut into tokens,
with every arena that was made by allocation. -/
theorem looksAhead_of_tokenizeWith {wide : Char → Bool} {source : String} {s : Filling}
    (ht : tokenizeWith wide source = .ok tokens) (hs : s.cursor.rest <:+ tokens)
    (hne : s.cursor.rest ≠ []) (hb : s.arena.Built) : LooksAhead s := by
  obtain ⟨ws, hws, -⟩ := Lexer.words_of_tokenizeWith ht
  obtain ⟨vs, hvs⟩ := exists_words_of_suffix hws hs hne
  have hc : s.cursor.bare = reading vs := congrArg (Cursor.mk .nowhere) hvs
  have hf : s.arena.Fair := fun _ => hb
  obtain ⟨found, place, hscan⟩ := succeeds_scanType s.cursor
  exact
    { scanned := ⟨found, place, lifts_scanType.run_eq_ok hscan⟩
      scan := fun hroom place => scanType_iff_type hc hf hroom place
      cast := fun _ hcast hroom => exists_run_castHead_filling hc hf hcast hroom
      declaration := fun hseen hroom => exists_run_declarationHead_filling hc hf hseen hroom
      stays := ⟨run_atCast s, run_atDeclaration s⟩ }

/-- A cast to an array of a qualified type, of which two steps of a name and a dimension are
scanned. -/
theorem looksAhead_of_tokenizeWith_cast :
    ∃ tokens, tokenize "(a.b[]) x" = .ok tokens ∧
      let s : Filling := ⟨.ofTokens tokens, .empty⟩
      LooksAhead s ∧ atCast.run s = .ok true s ∧ ∃ close last, castHead.run s = .ok close last := by
  have hcut : (match tokenize "(a.b[]) x" with
      | .ok tokens =>
        let s : Filling := ⟨.ofTokens tokens, .empty⟩
        s.cursor.current.kind == .punctuator .lparen && !tokens.isEmpty &&
        (match atCast.run s with | .ok found _ => found | .error .. => false) &&
        decide (s.HasRoom castHead)
      | .error _ => false) = true := by
    decide +kernel
  cases ht : tokenize "(a.b[]) x" with
  | error error => simp [ht] at hcut
  | ok tokens =>
    simp only [ht, Bool.and_eq_true, beq_iff_eq, Bool.not_eq_true',
        List.isEmpty_eq_false_iff] at hcut
    obtain ⟨⟨⟨hopening, hne⟩, hseen⟩, hroom⟩ := hcut
    have hlooks : LooksAhead ⟨.ofTokens tokens, .empty⟩ :=
      looksAhead_of_tokenizeWith ht (List.suffix_refl tokens) hne Arena.built_empty
    obtain ⟨seen, hcast⟩ := hlooks.stays.1
    rw [hcast] at hseen
    cases hseen
    exact ⟨tokens, rfl, hlooks, hcast, hlooks.cast hopening hcast (of_decide_eq_true hroom)⟩

end JavaFold.Grammar
