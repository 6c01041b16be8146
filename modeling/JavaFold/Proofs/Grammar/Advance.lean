import JavaFold.Proofs.Grammar.Steps

/-!
# Positions in a list of tokens

In a list of tokens that is closed by the end of the source, the state of reading is told by the
number of tokens that were taken (`Cursor.after`). No production goes back (`forward`), and a token
that is not the end of the source is passed when it is taken (`gives_advance_passing`).

Productions that call each other are compared step by step: two of them are `Alike` if they do the
same from the states in question, whatever they call later on.
-/

namespace JavaFold

/-- The tokens end with the mark of the end of the source, which stands nowhere else. -/
def Token.Closed (tokens : List Token) : Prop :=
  ∃ front last, tokens = front ++ [last] ∧ last.kind = .endOfFile ∧
    ∀ token ∈ front, token.kind ≠ .endOfFile

namespace Cursor

variable {tokens : List Token} {position : Nat}

/-- The state after the first tokens were taken. -/
def after (tokens : List Token) (taken : Nat) : Cursor :=
  ⟨((tokens.take taken).getLast?.map Token.span).getD .nowhere, tokens.drop taken⟩

/-- At a position, the tokens that remain are those from there on. -/
theorem length_rest_after : (after tokens position).rest.length = tokens.length - position :=
  List.length_drop

private theorem current_after (h : position < tokens.length) :
    (after tokens position).current = tokens[position] := by
  rw [current, after, List.drop_eq_getElem_cons h]
  rfl

private theorem advance_after (h : position + 1 < tokens.length) :
    (after tokens position).advance = after tokens (position + 1) := by
  have hlt : position < tokens.length := Nat.lt_of_succ_lt h
  have hrest : (after tokens position).rest =
      tokens[position] :: tokens[position + 1] :: tokens.drop (position + 2) := by
    rw [after, List.drop_eq_getElem_cons hlt, List.drop_eq_getElem_cons h]
  have hlast : (tokens.take (position + 1)).getLast? = some tokens[position] := by
    rw [List.getLast?_take]
    simp [hlt]
  have hafter : after tokens (position + 1) =
      ⟨tokens[position].span, tokens[position + 1] :: tokens.drop (position + 2)⟩ := by
    rw [after, hlast, ← List.drop_eq_getElem_cons h]
    rfl
  rw [advance, hrest, hafter]

private theorem advance_after_last (h : position + 1 = tokens.length) :
    (after tokens position).advance = after tokens position := by
  have hlt : position < tokens.length := by omega
  have hrest : (after tokens position).rest = [tokens[position]] := by
    rw [after, List.drop_eq_getElem_cons hlt, List.drop_eq_nil_of_le (by omega)]
  rw [advance, hrest]

end Cursor

/-- The end of the source is the last token. -/
theorem Token.Closed.succ_lt {tokens : List Token} {position : Nat} (h : Token.Closed tokens)
    (hlt : position < tokens.length)
    (hkind : (Cursor.after tokens position).current.kind ≠ .endOfFile) :
    position + 1 < tokens.length := by
  obtain ⟨front, last, rfl, hlast, -⟩ := h
  rw [Cursor.current_after hlt] at hkind
  refine Nat.lt_of_le_of_ne hlt fun hposition => hkind ?_
  rw [List.length_append, List.length_singleton] at hposition
  rw [List.getElem_concat_length (Nat.succ.inj hposition)]
  exact hlast

namespace Grammar

open Reading Builder

variable {σ τ α β : Type} [Reading σ] [Builder σ τ] {tokens : List Token} {lo hi : Nat} {c : Cursor}

/-! ## How far the cursor has come -/

/-- The cursor stands in closed tokens, before none of the first `lo` ones. -/
structure From (tokens : List Token) (lo : Nat) (c : Cursor) : Prop where
  closed : Token.Closed tokens
  position : ∃ position, lo ≤ position ∧ position < tokens.length ∧ c = .after tokens position

private theorem From.anti (h : From tokens hi c) (hle : lo ≤ hi) : From tokens lo c := by
  obtain ⟨position, hlo, hlt, rfl⟩ := h.position
  exact ⟨h.closed, position, Nat.le_trans hle hlo, hlt, rfl⟩

/-- The cursor stands at a token that can be taken. -/
def Ready (tokens : List Token) (lo : Nat) (c : Cursor) : Prop :=
  From tokens lo c ∧ c.current.kind ≠ .endOfFile

/-- The cursor stands at a token of a class. -/
def Facing (tokens : List Token) (lo : Nat) (kind : TokenKind) (c : Cursor) : Prop :=
  From tokens lo c ∧ c.current.kind = kind

/-- No production goes back, or leaves the tokens. -/
def forward (tokens : List Token) : Law σ where
  Moves c c' := ∀ lo, From tokens lo c → From tokens lo c'
  Refuses _ _ := True
  refl _ _ h := h
  trans hab hbc lo h := hbc lo (hab lo h)
  advance c lo h := by
    obtain ⟨position, hlo, hlt, rfl⟩ := h.position
    by_cases hnext : position + 1 < tokens.length
    · rw [Cursor.advance_after hnext]
      exact ⟨h.closed, position + 1, by omega, hnext, rfl⟩
    · rwa [Cursor.advance_after_last (by omega)]
  unexpected _ _ := trivial
  unsupported _ _ := trivial
  build _ := trivial

private theorem gives_of_obeys {p : Parser σ α} (h : Obeys (forward tokens) p) :
    Gives (From tokens lo) p fun _ => From tokens lo := by
  intro s hs a s' hr
  have hmoves := h s
  rw [hr] at hmoves
  exact hmoves lo hs

/-- Taking a token passes it. -/
theorem gives_advance_passing :
    Gives (Ready tokens lo) (advance : Parser σ Token) fun _ => From tokens (lo + 1) := by
  rintro s ⟨hs, hkind⟩ token s' hr
  obtain ⟨-, hs'⟩ := gives_advance s rfl token s' hr
  obtain ⟨position, hlo, hlt, hposition⟩ := hs.position
  rw [hposition] at hkind
  have hnext := hs.closed.succ_lt hlt hkind
  rw [hs', hposition, Cursor.advance_after hnext]
  exact ⟨hs.closed, position + 1, by omega, hnext, rfl⟩

/-! ## Productions that do the same -/

/-- Two steps do the same in the states of one sort, and lead to states of another. -/
structure Alike (P : Cursor → Prop) (p p' : Parser σ α) (Q : α → Cursor → Prop) : Prop where
  gives : Gives P p Q
  same : ∀ s, P (cursor s) → p.run s = p'.run s

section Alike

variable {P P' : Cursor → Prop} {Q Q' : α → Cursor → Prop} {R : β → Cursor → Prop}
  {p p' q q' : Parser σ α}

/-- A production does the same as itself. -/
theorem Gives.alike (h : Gives P p Q) : Alike P p p Q :=
  ⟨h, fun _ _ => rfl⟩

/-- Productions that do the same in sequence do the same, the second from the states the first leads
to. -/
theorem Alike.bind {k k' : α → Parser σ β} (hp : Alike P p p' Q)
    (hk : ∀ a, Alike (Q a) (k a) (k' a) R) : Alike P (p >>= k) (p' >>= k') R := by
  refine ⟨hp.gives.bind fun a => (hk a).gives, fun s hs => ?_⟩
  rw [EStateM.run_bind, EStateM.run_bind, ← hp.same s hs]
  cases hr : p.run s with
  | error error middle => rfl
  | ok a middle => exact (hk a).same middle (hp.gives s hs a middle hr)

/-- Branches that do the same on both sides do the same. -/
theorem Alike.ite {b : Prop} [Decidable b] (hp : Alike P p p' Q) (hq : Alike P q q' Q) :
    Alike P (if b then p else q) (if b then p' else q') Q := by
  split
  · exact hp
  · exact hq

/-- Less may be asked of the states to start from by asking more. -/
theorem Alike.of_imp (h : Alike P p p' Q) (hP : ∀ c, P' c → P c) : Alike P' p p' Q :=
  ⟨h.gives.of_imp hP, fun s hs => h.same s (hP _ hs)⟩

/-- Less may be said of the states that are reached. -/
theorem Alike.imp (h : Alike P p p' Q) (hQ : ∀ a c, Q a c → Q' a c) : Alike P p p' Q' :=
  ⟨h.gives.imp hQ, h.same⟩

/-- A value given back leaves the state as it is. -/
theorem alike_pure {a : α} (h : ∀ c, P c → Q a c) : Alike P (pure a : Parser σ α) (pure a) Q :=
  (gives_pure h).alike

/-- A refusal leads nowhere. -/
theorem alike_unexpected {expected : Expectation} :
    Alike P (unexpected expected : Parser σ α) (unexpected expected) Q :=
  gives_unexpected.alike

/-- A refusal leads nowhere, whatever it is for. -/
theorem alike_unsupported {construct : Construct} :
    Alike P (unsupported construct : Parser σ α) (unsupported construct) Q :=
  gives_unsupported.alike

/-- Productions do the same under a bound if they do at every bound. -/
theorem alike_bounded {f f' : Nat → Parser σ α} (h : ∀ depth, Alike P (f depth) (f' depth) Q) :
    Alike P (bounded f) (bounded f') Q :=
  ⟨gives_bounded fun depth => (h depth).gives, fun s hs => (h (cursor s).rest.length).same s hs⟩

/-! ### The next token -/

/-- Knowing the next token does no harm. -/
theorem Alike.facing {kind : TokenKind} (h : Alike (From tokens lo) p p' Q) :
    Alike (Facing tokens lo kind) p p' Q :=
  h.of_imp fun _ hc => hc.1

/-- A next token other than the end can be taken. -/
theorem Alike.taking {kind : TokenKind} (hkind : kind ≠ .endOfFile)
    (h : Alike (Ready tokens lo) p p' Q) : Alike (Facing tokens lo kind) p p' Q :=
  h.of_imp fun _ hc => ⟨hc.1, hc.2.symm ▸ hkind⟩

/-- After the next token is looked at, its kind is known. -/
theorem alike_current {k k' : Token → Parser σ α}
    (h : ∀ token, Alike (Facing tokens lo token.kind) (k token) (k' token) Q) :
    Alike (From tokens lo) (current >>= k) (current >>= k') Q :=
  ⟨fun s hs => (h (cursor s).current).gives s ⟨hs, rfl⟩,
    fun s hs => (h (cursor s).current).same s ⟨hs, rfl⟩⟩

/-- After the kind of the next token is looked at, it is known. -/
theorem alike_currentKind {k k' : TokenKind → Parser σ α}
    (h : ∀ kind, Alike (Facing tokens lo kind) (k kind) (k' kind) Q) :
    Alike (From tokens lo) (currentKind >>= k) (currentKind >>= k') Q :=
  ⟨fun s hs => (h (cursor s).current.kind).gives s ⟨hs, rfl⟩,
    fun s hs => (h (cursor s).current.kind).same s ⟨hs, rfl⟩⟩

/-- Looking further ahead changes nothing that is known. -/
theorem gives_kindAt (n : Nat) : Gives P (kindAt n : Parser σ TokenKind) fun _ => P := by
  rintro c hc _ _ ⟨⟩
  exact hc

private theorem gives_check_ready {kind : TokenKind} (hkind : kind ≠ .endOfFile) :
    Gives (From tokens lo) (check kind : Parser σ Bool) fun found =>
      if found then Ready tokens lo else From tokens lo := by
  rintro c hc _ _ ⟨⟩
  split
  next h => exact ⟨hc, eq_of_beq h ▸ hkind⟩
  next => exact hc

private theorem gives_eat_passing {kind : TokenKind} (hkind : kind ≠ .endOfFile) :
    Gives (From tokens lo) (eat kind : Parser σ Bool) fun found =>
      From tokens (if found then lo + 1 else lo) := by
  refine (gives_check_ready hkind).bind fun found => ?_
  cases found with
  | true => exact gives_advance_passing.bind fun _ => gives_pure fun _ hc => hc
  | false => exact gives_pure fun _ hc => hc

private theorem gives_expect_passing {kind : TokenKind} {expected : Expectation}
    (hkind : kind ≠ .endOfFile) :
    Gives (From tokens lo) (expect kind expected : Parser σ Token) fun _ => From tokens
        (lo + 1) := by
  refine (gives_check_ready hkind).bind fun found => ?_
  cases found with
  | true => exact gives_advance_passing
  | false => exact gives_unexpected

/-- A choice by the class of the next token and by what stands further on. -/
theorem alike_lookahead {kind : TokenKind} {look : Parser σ β} {test : β → Bool}
    (hkind : kind ≠ .endOfFile) (hlook : ∀ P, Gives P look fun _ => P)
    (hp : Alike (Ready tokens lo) p p' Q) (hq : Alike (From tokens lo) q q' Q) :
    Alike (From tokens lo)
      (check kind >>= fun a => look >>= fun b => if a && test b then p else q)
      (check kind >>= fun a => look >>= fun b => if a && test b then p' else q') Q := by
  refine (gives_check_ready hkind).alike.bind fun found => (hlook _).alike.bind fun b => ?_
  cases found with
  | true => exact .ite hp (hq.of_imp fun _ hc => hc.1)
  | false => exact hq

/-- A choice by whether the next token is taken. -/
theorem alike_eat {kind : TokenKind} (hkind : kind ≠ .endOfFile)
    (hp : Alike (From tokens (lo + 1)) p p' Q) (hq : Alike (From tokens lo) q q' Q) :
    Alike (From tokens lo) (eat kind >>= fun found => if found then p else q)
      (eat kind >>= fun found => if found then p' else q') Q := by
  refine (gives_eat_passing hkind).alike.bind fun found => ?_
  cases found with
  | true => exact hp
  | false => exact hq

end Alike

/-! ## From one position to another -/

/-- Two productions do the same from a position on, and lead to another one. -/
abbrev Leads (tokens : List Token) (lo hi : Nat) (p p' : Parser σ α) : Prop :=
  Alike (From tokens lo) p p' fun _ => From tokens hi

/-- Two productions do the same from a position on, and take a token if they succeed. -/
def Takes (tokens : List Token) (lo : Nat) (p p' : Parser σ α) : Prop :=
  ∀ position, lo ≤ position → Leads tokens position (position + 1) p p'

section Leads

variable {p p' : Parser σ α}

/-- A step that may or may not take tokens. -/
theorem Obeys.leads (h : Obeys (forward tokens) p) : Leads tokens lo lo p p :=
  (gives_of_obeys h).alike

/-- What has come further has come as far. -/
theorem Alike.back {P : Cursor → Prop} (h : Alike P p p' fun _ => From tokens hi) (hle : lo ≤ hi) :
    Alike P p p' fun _ => From tokens lo :=
  h.imp fun _ _ hc => hc.anti hle

/-- A punctuator that is expected is taken. -/
theorem leads_expectPunctuator (punctuator : Punctuator) :
    Leads tokens lo (lo + 1) (expectPunctuator punctuator : Parser σ Token)
      (expectPunctuator punctuator) :=
  have hkind : TokenKind.punctuator punctuator ≠ .endOfFile := nofun
  (gives_expect_passing hkind).alike

/-- A keyword that is expected is taken. -/
theorem leads_expectKeyword (keyword : Keyword) :
    Leads tokens lo (lo + 1) (expectKeyword keyword : Parser σ Token) (expectKeyword keyword) :=
  have hkind : TokenKind.keyword keyword ≠ .endOfFile := nofun
  (gives_expect_passing hkind).alike

/-- An identifier that is expected is taken. -/
theorem leads_expectIdentifier :
    Leads tokens lo (lo + 1) (expectIdentifier : Parser σ Token) expectIdentifier :=
  have hkind : TokenKind.identifier ≠ .endOfFile := nofun
  (gives_expect_passing hkind).alike

/-- What takes a token from any position on does so from a later one. -/
theorem Takes.mono (h : Takes tokens lo p p') (hle : lo ≤ hi) : Takes tokens hi p p' :=
  fun position hposition => h position (Nat.le_trans hle hposition)

/-- What takes a token leads one position further. -/
theorem Takes.leads (h : Takes tokens lo p p') : Leads tokens lo (lo + 1) p p' :=
  h lo (Nat.le_refl lo)

/-- A production that takes a token does not go back. -/
theorem Takes.stays (h : Takes tokens lo p p') : Leads tokens lo lo p p' :=
  h.leads.back (Nat.le_succ lo)

end Leads

/-! ## Repetition -/

/-- Two steps do the same from a position on, and take a token unless they decline. -/
def Turns (tokens : List Token) (lo : Nat) (step step' : α → Parser σ (Option α)) : Prop :=
  ∀ position, lo ≤ position → ∀ a, Alike (From tokens position) (step a) (step' a) fun next =>
    From tokens (if next.isSome then position + 1 else position)

section Turns

variable {step step' : α → Parser σ (Option α)}

private theorem leads_iterate (h : Turns tokens lo step step') (turns : Nat) (a : α) :
    Leads tokens lo lo (iterate step turns a) (iterate step' turns a) := by
  induction turns generalizing lo a with
  | zero => exact alike_pure fun _ hc => hc
  | succ turns ih =>
    refine (h lo (Nat.le_refl lo) a).bind fun next => ?_
    cases next with
    | none => exact alike_pure fun _ hc => hc
    | some next =>
      have hnext : Turns tokens (lo + 1) step step' := fun position hle =>
        h position (Nat.le_of_succ_le hle)
      exact (ih hnext next).back (Nat.le_succ lo)

/-- A loop goes back nowhere, whatever its bound, as its turns do not. -/
theorem leads_repeating (h : Turns tokens lo step step') (a : α) :
    Leads tokens lo lo (repeating step a) (repeating step' a) :=
  alike_bounded fun turns => leads_iterate h turns a

/-- A step is repeated without any bound until it declines or is refused, which it does the given
time it is made. -/
inductive Repeats (step : α → Parser σ (Option α)) :
    Nat → α → σ → EStateM.Result ParseError σ α → Prop where
  | refused {a : α} {s s' : σ} {error : ParseError} (h : (step a).run s = .error error s') :
    Repeats step 1 a s (.error error s')
  | declined {a : α} {s s' : σ} (h : (step a).run s = .ok none s') :
    Repeats step 1 a s (.ok a s')
  | again {count : Nat} {a next : α} {s s' : σ} {result}
    (h : (step a).run s = .ok (some next) s') (after : Repeats step count next s' result) :
    Repeats step (count + 1) a s result

/-- A turn that is followed by another one takes a token. -/
theorem Turns.again (h : Turns tokens lo step step) {a next : α} {s s' : σ}
    (hs : From tokens lo (cursor s)) (hr : (step a).run s = .ok (some next) s') :
    From tokens lo (cursor s') ∧ (cursor s').rest.length < (cursor s).rest.length := by
  obtain ⟨position, hlo, hlt, hposition⟩ := hs.position
  have hnext : From tokens (position + 1) (cursor s') :=
    (h position hlo a).gives s ⟨hs.closed, position, Nat.le_refl _, hlt, hposition⟩ _ _ hr
  refine ⟨hnext.anti (by omega), ?_⟩
  obtain ⟨position', hlo', hlt', hposition'⟩ := hnext.position
  rw [hposition, hposition', Cursor.length_rest_after, Cursor.length_rest_after]
  omega

end Turns

end Grammar

end JavaFold
