import JavaFold.Proofs.Grammar.Law

/-!
# What a step of a production leads to

A production is made of steps. What is known of the cursor after a step follows from what is known
before it and from what the step gives; `Gives` says this of one step and is put together along the
sequences, choices and repetitions of a production.
-/

namespace JavaFold.Grammar

open Reading

variable {σ α β : Type} [Reading σ] {first : Cursor}

/-- A step leads from states with one sort of cursor to states with another. -/
def Gives (P : Cursor → Prop) (p : Parser σ α) (Q : α → Cursor → Prop) : Prop :=
  ∀ s, P (cursor s) → ∀ a s', p.run s = .ok a s' → Q a (cursor s')

variable {P P' : Cursor → Prop} {Q : α → Cursor → Prop} {R : β → Cursor → Prop}

/-- A value given back leads to the state it is given in. -/
theorem gives_pure {a : α} (h : ∀ c, P c → Q a c) : Gives P (pure a : Parser σ α) Q := by
  rintro s hs _ _ ⟨⟩
  exact h _ hs

/-- Productions in sequence lead where the second leads from where the first does. -/
theorem Gives.bind {p : Parser σ α} {k : α → Parser σ β} (hp : Gives P p Q)
    (hk : ∀ a, Gives (Q a) (k a) R) : Gives P (p >>= k) R := by
  intro s hs b s' hr
  rw [EStateM.run_bind] at hr
  cases hrun : p.run s with
  | error error middle =>
    rw [hrun] at hr
    cases hr
  | ok a middle =>
    rw [hrun] at hr
    exact hk a middle (hp s hs a middle hrun) b s' hr

/-- A branch leads where both sides do. -/
theorem Gives.ite {b : Prop} [Decidable b] {p q : Parser σ α} (hp : Gives P p Q)
    (hq : Gives P q Q) : Gives P (if b then p else q) Q := by
  split
  · exact hp
  · exact hq

/-- Less may be asked of the states to start from by asking more. -/
theorem Gives.of_imp {p : Parser σ α} (h : Gives P p Q) (hP : ∀ c, P' c → P c) : Gives P' p Q :=
  fun s hs => h s (hP _ hs)

/-- Less may be said of the states that are reached. -/
theorem Gives.imp {Q' : α → Cursor → Prop} {p : Parser σ α} (h : Gives P p Q)
    (hQ : ∀ a c, Q a c → Q' a c) : Gives P p Q' :=
  fun s hs a s' hr => hQ a _ (h s hs a s' hr)

/-- A refusal leads nowhere. -/
theorem gives_unexpected {expected : Expectation} :
    Gives P (unexpected expected : Parser σ α) Q :=
  fun _ _ _ _ h => nomatch h

/-- A refusal leads nowhere, whatever it is for. -/
theorem gives_unsupported {construct : Construct} :
    Gives P (unsupported construct : Parser σ α) Q :=
  fun _ _ _ _ h => nomatch h

/-- A step that is repeated keeps what one turn keeps. -/
theorem gives_iterate {step : α → Parser σ (Option α)} {I : α → Cursor → Prop}
    (h : ∀ a, Gives (I a) (step a) fun next => I (next.getD a)) (turns : Nat) (a : α) :
    Gives (I a) (iterate step turns a) I := by
  induction turns generalizing a with
  | zero => exact gives_pure fun _ hc => hc
  | succ turns ih =>
    refine (h a).bind fun next => ?_
    cases next with
    | none => exact gives_pure fun _ hc => hc
    | some next => exact ih next

/-- A production leads somewhere under a bound if it does at every bound. -/
theorem gives_bounded {p : Nat → Parser σ α} (h : ∀ depth, Gives P (p depth) Q) :
    Gives P (bounded p) Q :=
  fun s hs => h (cursor s).rest.length s hs

/-- A loop keeps what its turns keep, the value handed on included. -/
theorem gives_repeating {step : α → Parser σ (Option α)} {I : α → Cursor → Prop}
    (h : ∀ a, Gives (I a) (step a) fun next => I (next.getD a)) (a : α) :
    Gives (I a) (repeating step a) I :=
  gives_bounded fun turns => gives_iterate h turns a

/-- Looking ahead, whatever is seen, leads nowhere else. -/
theorem gives_lookingAhead {look : Parser σ α} : Gives P (lookingAhead look) fun _ => P := by
  intro s hs a s' hr
  rw [run_lookingAhead] at hr
  cases hlook : look.run s with
  | error error middle =>
    rw [hlook] at hr
    cases hr
  | ok seen middle =>
    rw [hlook] at hr
    cases hr
    rwa [cursor_move]

/-! ## Looking at the next token -/

/-- The next token is that of the state. -/
theorem gives_current {k : Token → Parser σ α} (h : Gives (· = first) (k first.current) Q) :
    Gives (· = first) (current >>= k) Q := by
  rintro s rfl
  exact h s rfl

/-- The place of the next token is that of the state. -/
theorem gives_currentSpan {k : Span → Parser σ α} (h : Gives (· = first) (k first.current.span) Q) :
    Gives (· = first) (currentSpan >>= k) Q := by
  rintro s rfl
  exact h s rfl

/-- The kind of the next token is that of the state. -/
theorem gives_currentKind {k : TokenKind → Parser σ α}
    (h : Gives (· = first) (k first.current.kind) Q) :
    Gives (· = first) (currentKind >>= k) Q := by
  rintro s rfl
  exact h s rfl

/-- A question changes nothing that is known. -/
theorem gives_check (kind : TokenKind) : Gives P (check kind : Parser σ Bool) fun _ => P := by
  rintro s hs _ _ ⟨⟩
  exact hs

/-- A choice by the class of the next token. -/
theorem gives_guarded {kind : TokenKind} {p q : Parser σ α}
    (hp : ∀ c, P c → c.current.kind = kind → Gives (· = c) p Q) (hq : Gives P q Q) :
    Gives P (check kind >>= fun b => if b then p else q) Q := by
  intro s hs a s' hr
  have hr : (if ((cursor s).current.kind == kind) = true then p else q).run s = .ok a s' := hr
  split at hr
  next hk => exact hp _ hs (eq_of_beq hk) s rfl a s' hr
  next => exact hq s hs a s' hr

/-- Taking a token leads to the state behind it. -/
theorem gives_advance : Gives (· = first) (advance : Parser σ Token) fun token c =>
    token = first.current ∧ c = first.advance := by
  rintro s rfl _ _ ⟨⟩
  exact ⟨rfl, cursor_move ..⟩

/-- What is expected is taken if it is there, and the state is the one behind it. -/
theorem gives_expect_first (kind : TokenKind) (expected : Expectation) :
    Gives (· = first) (expect kind expected : Parser σ Token) fun token c =>
      token = first.current ∧ first.current.kind = kind ∧ c = first.advance := by
  rintro s rfl token s' hr
  have hr : (if ((cursor s).current.kind == kind) = true then advance else
    unexpected expected : Parser σ Token).run s = .ok token s' := hr
  split at hr
  next hk =>
    obtain ⟨htoken, hs'⟩ := gives_advance s rfl token s' hr
    exact ⟨htoken, eq_of_beq hk, hs'⟩
  next => cases hr

end JavaFold.Grammar
