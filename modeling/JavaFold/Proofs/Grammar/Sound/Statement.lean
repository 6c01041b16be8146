import JavaFold.Proofs.Grammar.Clause
import JavaFold.Proofs.Grammar.Sound.Expression

/-!
# Statements that are read

A statement that is read is a statement. Stray semicolons and repeated modifiers are dropped on the
way, so the words of a tree need not be the words that were taken; they have whatever property `V`
the words before have, if reserved words and punctuators have it.
-/

namespace JavaFold.Grammar

open Cursor

variable {V : Word → Prop} {ws rest : List Word} {cursor : Cursor} {tree : SourceTree}

/-- A property of words that reserved words and punctuators have. -/
structure Lexical (V : Word → Prop) : Prop where
  keyword : ∀ k, V (.keyword k)
  punctuator : ∀ p, V (.punctuator p)

/-- A production takes words that have the property `V`, leaves such words and gives a tree of such
words; `P` says what else is known of the tree and of the words left. -/
def Gathers (V : Word → Prop) (production : Parser Cursor SourceTree)
    (P : SourceTree → List Word → Prop) : Prop :=
  ∀ ws tree cursor, (∀ w ∈ ws, V w) → production.outcome (reading ws) = some (tree, cursor) →
    ∃ rest, cursor = reading rest ∧ rest.length < ws.length ∧ (∀ w ∈ rest, V w) ∧
      (∀ w ∈ tree.words, V w) ∧ P tree rest

private theorem Sound.gathers {production : Parser Cursor SourceTree}
    {P : SourceTree → List Word → Prop}
    (h : Sound production P) (hne : ∀ tree rest, P tree rest → tree.words ≠ []) :
    Gathers V production P := by
  intro ws tree cursor hws ho
  obtain ⟨rest, rfl, rfl, hp⟩ := h ws tree cursor ho
  have := List.length_pos_iff.2 (hne tree rest hp)
  refine ⟨rest, rfl, ?_, fun w hw => hws w (List.mem_append_right _ hw),
    fun w hw => hws w (List.mem_append_left _ hw), hp⟩
  rw [List.length_append]
  omega

/-- An expression that is read is one, and all its words were taken. -/
theorem gathers_expression : Gathers V expression fun tree _ => IsExpression tree :=
  sound_expression.gathers fun _ _ h => h.opens.words_ne_nil

/-- A type that is read is one, and all its words were taken. -/
theorem gathers_type (allowVoid : Bool) :
    Gathers V (Grammar.type allowVoid) fun tree _ => IsType allowVoid tree :=
  (sound_type allowVoid).gathers fun _ _ h => h.words_ne_nil

/-- A name of one word that is read is one. -/
theorem gathers_simpleName : Gathers V simpleName fun tree _ => IsSimpleName tree :=
  sound_simpleName.gathers fun _ _ ⟨_, _⟩ => List.cons_ne_nil _ _

/-- A name that is read is one. -/
theorem gathers_name : Gathers V Grammar.name fun tree _ => IsName tree := by
  intro ws tree cursor hws h
  have hne : ∀ tree rest, IsName tree ∧ StopsName rest → tree.words ≠ [] := by
    rintro tree rest ⟨hn, -⟩
    obtain ⟨text, ws, hw⟩ := hn.words_eq
    rw [hw]
    exact List.cons_ne_nil _ _
  obtain ⟨rest, hc, hlt, hr, ht, hn, -⟩ := sound_name.gathers hne ws tree cursor hws h
  exact ⟨rest, hc, hlt, hr, ht, hn⟩

/-- Modifiers are reserved words. -/
theorem forall_mem_modifiers (hV : Lexical V) (modifiers : Modifiers) :
    ∀ w ∈ modifiers.words, V w := by
  intro w hw
  obtain ⟨m, -, rfl⟩ := List.mem_map.1 hw
  exact hV.keyword _

/-- What is written around the trees of a list are punctuators. -/
theorem forall_mem_wordsRow (hV : Lexical V) (form : Form) {trees : List SourceTree}
    (h : ∀ t ∈ trees, ∀ w ∈ t.words, V w) : ∀ w ∈ Tree.wordsRow form trees, V w := by
  induction trees with
  | nil => simp [Tree.wordsRow]
  | cons tree trees ih =>
    have hplace : ∀ w ∈ form.placeWords tree.tag? tree.words, V w := by
      intro w hw
      unfold Form.placeWords at hw
      split at hw
      · exact h tree List.mem_cons_self w (List.dropLast_subset _ hw)
      · exact h tree List.mem_cons_self w hw
    have hseparator : ∀ w ∈ (if trees.isEmpty then [] else form.separatorWords), V w := by
      intro w hw
      split at hw
      · cases hw
      · cases form <;> simp only [Form.separatorWords, List.mem_singleton, List.not_mem_nil] at hw
        all_goals rw [hw]; exact hV.punctuator _
    simp only [Tree.wordsRow, List.forall_mem_append]
    exact ⟨⟨hplace, hseparator⟩, ih fun t ht => h t (List.mem_cons_of_mem _ ht)⟩

/-- Reading modifiers leaves words of the same kind; one that is repeated is dropped. -/
theorem modifiers_gathers {modifiers : Modifiers} (hws : ∀ w ∈ ws, V w)
    (h : Grammar.modifiers.outcome (reading ws) = some (modifiers, cursor)) :
    ∃ rest, cursor = reading rest ∧ rest.length ≤ ws.length ∧ (∀ w ∈ rest, V w) := by
  obtain ⟨taken, rest, rfl, rfl, -⟩ := modifiers_sound h
  refine ⟨rest, rfl, ?_, fun w hw => hws w (List.mem_append_right _ hw)⟩
  rw [List.length_append]
  omega

/-- Items with commas between them that are read. -/
theorem commaSeparated_gathers {item : Parser Cursor SourceTree} {Q : SourceTree → Prop}
    (hitem : Gathers V item fun tree _ => Q tree) {trees : List SourceTree}
    (hws : ∀ w ∈ ws, V w)
    (h : (commaSeparated item).outcome (reading ws) = some (trees, cursor)) :
    ∃ rest, cursor = reading rest ∧ rest.length < ws.length ∧ (∀ w ∈ rest, V w) ∧ trees ≠ [] ∧
      ∀ t ∈ trees, (∀ w ∈ t.words, V w) ∧ Q t := by
  refine commaSeparated_invariant (fun found left => left.length < ws.length ∧
    (∀ w ∈ left, V w) ∧ found ≠ [] ∧ ∀ t ∈ found, (∀ w ∈ t.words, V w) ∧ Q t) ?_ ?_ h
  · intro t c ht
    obtain ⟨rest, rfl, hlt, hrest, hwords, hq⟩ := hitem _ _ _ hws ht
    exact ⟨rest, rfl, hlt, hrest, by simp, by simpa using ⟨hwords, hq⟩⟩
  · rintro found vs t c ⟨hlt, hvs, hne, hfound⟩ ht
    obtain ⟨rest, rfl, hlt', hrest, hwords, hq⟩ :=
      hitem _ _ _ (fun w hw => hvs w (List.mem_cons_of_mem _ hw)) ht
    simp only [List.length_cons] at hlt
    refine ⟨rest, rfl, by omega, by omega, hrest, by simp, ?_⟩
    rw [List.forall_mem_append, List.forall_mem_singleton]
    exact ⟨hfound, hwords, hq⟩

/-- A turn takes words and leaves others of the same kind; it adds one tree to those found, or
none. -/
def Appends (V : Word → Prop) (step : List SourceTree → Parser Cursor (Option (List SourceTree)))
    (S : SourceTree → Prop) : Prop :=
  ∀ found vs x cursor, (∀ w ∈ vs, V w) →
    (step found).outcome (reading vs) = some (some x, cursor) →
      ∃ left, cursor = reading left ∧ left.length < vs.length ∧ (∀ w ∈ left, V w) ∧
        (x = found ∨ ∃ t, x = found ++ [t] ∧ (∀ w ∈ t.words, V w) ∧ S t)

/-- Trees that are found turn by turn, beginning with none. -/
theorem Appends.repeating {step : List SourceTree → Parser Cursor (Option (List SourceTree))}
    {S : SourceTree → Prop} {trees : List SourceTree} (hstep : Appends V step S)
    (hstop : ∀ found vs cursor, (step found).outcome (reading vs) = some (none, cursor) →
      cursor = reading vs)
    (hws : ∀ w ∈ ws, V w)
    (h : (repeating step []).outcome (reading ws) = some (trees, cursor)) :
    ∃ rest, cursor = reading rest ∧ rest.length ≤ ws.length ∧ (∀ w ∈ rest, V w) ∧
      ∀ t ∈ trees, (∀ w ∈ t.words, V w) ∧ S t := by
  have hturn : ∀ found vs x cursor, (vs.length ≤ ws.length ∧ (∀ w ∈ vs, V w) ∧
        ∀ t ∈ found, (∀ w ∈ t.words, V w) ∧ S t) →
      (step found).outcome (reading vs) = some (some x, cursor) →
        ∃ left, cursor = reading left ∧ left.length < vs.length ∧ left.length ≤ ws.length ∧
          (∀ w ∈ left, V w) ∧ ∀ t ∈ x, (∀ w ∈ t.words, V w) ∧ S t := by
    rintro found vs x cursor ⟨hle, hvs, hfound⟩ hx
    obtain ⟨left, rfl, hlt, hleft, rfl | ⟨t, rfl, ht⟩⟩ := hstep found vs x cursor hvs hx
    · exact ⟨left, rfl, hlt, by omega, hleft, hfound⟩
    · refine ⟨left, rfl, hlt, by omega, hleft, ?_⟩
      rw [List.forall_mem_append, List.forall_mem_singleton]
      exact ⟨hfound, ht⟩
  obtain ⟨rest, rfl, ⟨hle, hrest, hall⟩, -⟩ := repeating_sound
    (fun found left => left.length ≤ ws.length ∧ (∀ w ∈ left, V w) ∧
      ∀ t ∈ found, (∀ w ∈ t.words, V w) ∧ S t)
    hturn (fun found vs cursor _ => hstop found vs cursor)
    ⟨Nat.le_refl _, hws, fun _ ht => absurd ht List.not_mem_nil⟩ h
  exact ⟨rest, rfl, hle, hrest, hall⟩

/-- Taking a punctuator leaves words of the same kind. -/
theorem expectPunctuator_gathers {p : Punctuator} {token : Token} (hws : ∀ w ∈ ws, V w)
    (h : (expectPunctuator p).outcome (reading ws) = some (token, cursor)) :
    ∃ rest, cursor = reading rest ∧ rest.length < ws.length ∧ (∀ w ∈ rest, V w) ∧
      token.span = .nowhere := by
  obtain ⟨rest, rfl, hspan, rfl⟩ := expectPunctuator_eq_some h
  exact ⟨rest, rfl, Nat.lt_succ_self _, fun w hw => hws w (List.mem_cons_of_mem _ hw), hspan⟩

/-- Taking a keyword leaves words of the same kind. -/
theorem expectKeyword_gathers {k : Keyword} {token : Token} (hws : ∀ w ∈ ws, V w)
    (h : (expectKeyword k).outcome (reading ws) = some (token, cursor)) :
    ∃ rest, cursor = reading rest ∧ rest.length < ws.length ∧ (∀ w ∈ rest, V w) ∧
      token.span = .nowhere := by
  obtain ⟨rest, rfl, hspan, rfl⟩ := expectKeyword_eq_some h
  exact ⟨rest, rfl, Nat.lt_succ_self _, fun w hw => hws w (List.mem_cons_of_mem _ hw), hspan⟩

private theorem eat_gathers {kind : TokenKind} {taken : Bool} (hws : ∀ w ∈ ws, V w)
    (h : (eat kind).outcome (reading ws) = some (taken, cursor)) (hk : kind ≠ .endOfFile) :
    ∃ rest, cursor = reading rest ∧ rest.length ≤ ws.length ∧ (∀ w ∈ rest, V w) := by
  rcases eat_eq_some h hk with ⟨-, w, rest, rfl, -, rfl⟩ | ⟨-, -, rfl⟩
  · exact ⟨rest, rfl, Nat.le_succ _, fun w hw => hws w (List.mem_cons_of_mem _ hw)⟩
  · exact ⟨ws, rfl, Nat.le_refl _, hws⟩

theorem eatPunctuator_gathers {p : Punctuator} {taken : Bool} (hws : ∀ w ∈ ws, V w)
    (h : (eatPunctuator p).outcome (reading ws) = some (taken, cursor)) :
    ∃ rest, cursor = reading rest ∧ rest.length ≤ ws.length ∧ (∀ w ∈ rest, V w) :=
  eat_gathers hws h nofun

theorem eatKeyword_gathers {k : Keyword} {taken : Bool} (hws : ∀ w ∈ ws, V w)
    (h : (eatKeyword k).outcome (reading ws) = some (taken, cursor)) :
    ∃ rest, cursor = reading rest ∧ rest.length ≤ ws.length ∧ (∀ w ∈ rest, V w) :=
  eat_gathers hws h nofun

/-! ## Local declarations -/

private theorem initializer_gathers (hws : ∀ w ∈ ws, V w)
    (h : initializer.outcome (reading ws) = some (tree, cursor)) :
    ∃ rest, cursor = reading rest ∧ rest.length ≤ ws.length ∧ (∀ w ∈ rest, V w) ∧
      (∀ w ∈ tree.words, V w) ∧ IsOptional IsExpression tree := by
  obtain ⟨taken, _, he, h1⟩ := outcome_bind_eq_some.1 h
  rcases eatPunctuator_eq_some he with ⟨rfl, vs, rfl, rfl⟩ | ⟨rfl, -, rfl⟩
  · simp only [if_true, outcome_bind, outcome_checkPunctuator, Option.bind_some, outcome_ite,
      outcome_unsupported] at h1
    split at h1
    next => cases h1
    next =>
      obtain ⟨rest, rfl, hlt, hrest, hwords, hexpr⟩ :=
        gathers_expression _ _ _ (fun w hw => hws w (List.mem_cons_of_mem _ hw)) h1
      exact ⟨rest, rfl, by simp only [List.length_cons]; omega, hrest, hwords, .inr hexpr⟩
  · cases h1
    exact ⟨ws, rfl, Nat.le_refl _, hws, nofun, .inl rfl⟩

/-- A variable that is read is a name with a value or without. -/
theorem gathers_fragment (hV : Lexical V) : Gathers V fragment fun tree _ => IsFragment tree := by
  intro ws tree cursor hws h
  simp only [fragment, outcome_bind, outcome_currentSpan, Option.bind_some] at h
  obtain ⟨⟨name, _⟩, hn, h1⟩ := Option.bind_eq_some_iff.1 h
  obtain ⟨vs, rfl, hlt, hvs, hwn, hname⟩ := gathers_simpleName _ _ _ hws hn
  obtain ⟨⟨value, _⟩, hi, h2⟩ := Option.bind_eq_some_iff.1 h1
  obtain ⟨rest, rfl, hle, hrest, hwi, hvalue⟩ := initializer_gathers hvs hi
  cases h2
  refine ⟨rest, rfl, by omega, hrest, ?_, .intro _ hname hvalue⟩
  rw [Tree.words, List.forall_mem_append]
  refine ⟨hwn, ?_⟩
  split
  · exact List.forall_mem_cons.2 ⟨hV.punctuator _, hwi⟩
  · nofun

private theorem gathers_localDeclaration (hV : Lexical V) :
    Gathers V localDeclaration fun tree _ => IsLocalDeclaration tree := by
  intro ws tree cursor hws h
  simp only [localDeclaration, outcome_bind, outcome_currentSpan, Option.bind_some] at h
  obtain ⟨⟨modifiers, _⟩, hm, h1⟩ := Option.bind_eq_some_iff.1 h
  obtain ⟨vs, rfl, hle, hvs⟩ := modifiers_gathers hws hm
  obtain ⟨⟨type, _⟩, ht, h2⟩ := Option.bind_eq_some_iff.1 h1
  obtain ⟨us, rfl, hlt, hus, hwt, htype⟩ := gathers_type false _ _ _ hvs ht
  obtain ⟨⟨fragments, _⟩, hf, h3⟩ := Option.bind_eq_some_iff.1 h2
  obtain ⟨rest, rfl, hlt', hrest, hne, hall⟩ :=
    commaSeparated_gathers (gathers_fragment hV) hus hf
  cases h3
  refine ⟨rest, rfl, by omega, hrest, ?_, .intro _ _ htype hne fun f hf => (hall f hf).2⟩
  simp only [Tree.words, List.forall_mem_append, List.forall_mem_singleton]
  exact ⟨⟨⟨forall_mem_modifiers hV _, hwt⟩,
    forall_mem_wordsRow hV _ fun f hf => (hall f hf).1⟩, hV.punctuator _⟩

/-! ## Parts of statements -/

private theorem gathers_condition : Gathers V condition fun tree _ => IsExpression tree := by
  intro ws tree cursor hws h
  obtain ⟨_, _, hl, h1⟩ := outcome_bind_eq_some.1 h
  obtain ⟨vs, rfl, hlt, hvs, -⟩ := expectPunctuator_gathers hws hl
  obtain ⟨expression, _, he, h2⟩ := outcome_bind_eq_some.1 h1
  obtain ⟨us, rfl, hlt', hus, hwe, hexpr⟩ := gathers_expression _ _ _ hvs he
  obtain ⟨_, _, hr, h3⟩ := outcome_bind_eq_some.1 h2
  obtain ⟨rest, rfl, hlt'', hrest, -⟩ := expectPunctuator_gathers hus hr
  cases h3
  exact ⟨rest, rfl, by omega, hrest, hwe, hexpr⟩

private theorem optionalExpression_gathers {stop : Punctuator} (hws : ∀ w ∈ ws, V w)
    (h : (optionalExpression stop).outcome (reading ws) = some (tree, cursor)) :
    ∃ rest, cursor = reading rest ∧ rest.length ≤ ws.length ∧ (∀ w ∈ rest, V w) ∧
      (∀ w ∈ tree.words, V w) ∧ IsOptional IsExpression tree := by
  simp only [optionalExpression, outcome_bind, outcome_checkPunctuator, Option.bind_some,
    outcome_ite] at h
  split at h
  next =>
    cases h
    exact ⟨ws, rfl, Nat.le_refl _, hws, nofun, .inl rfl⟩
  next =>
    obtain ⟨rest, rfl, hlt, hrest, hwords, hexpr⟩ := gathers_expression _ _ _ hws h
    exact ⟨rest, rfl, by omega, hrest, hwords, .inr hexpr⟩

private theorem optionalExpressions_gathers {stop : Punctuator} {trees : List SourceTree}
    (hws : ∀ w ∈ ws, V w)
    (h : (optionalExpressions stop).outcome (reading ws) = some (trees, cursor)) :
    ∃ rest, cursor = reading rest ∧ rest.length ≤ ws.length ∧ (∀ w ∈ rest, V w) ∧
      ∀ t ∈ trees, (∀ w ∈ t.words, V w) ∧ IsExpression t := by
  simp only [optionalExpressions, outcome_bind, outcome_checkPunctuator, Option.bind_some,
    outcome_ite] at h
  split at h
  next =>
    cases h
    exact ⟨ws, rfl, Nat.le_refl _, hws, nofun⟩
  next =>
    obtain ⟨rest, rfl, hlt, hrest, -, hall⟩ := commaSeparated_gathers gathers_expression hws h
    exact ⟨rest, rfl, by omega, hrest, hall⟩

/-- What is read at the head of a loop is a declaration or a list of expressions. -/
private theorem forInitializers_gathers (hV : Lexical V) {trees : List SourceTree}
    (hws : ∀ w ∈ ws, V w)
    (h : forInitializers.outcome (reading ws) = some (trees, cursor)) :
    ∃ rest, cursor = reading rest ∧ rest.length ≤ ws.length ∧ (∀ w ∈ rest, V w) ∧
      (∀ t ∈ trees, ∀ w ∈ t.words, V w) ∧ IsInitializers trees := by
  simp only [forInitializers, outcome_bind, outcome_atDeclaration, outcome_checkPunctuator,
    Option.bind_some, outcome_ite] at h
  split at h
  next =>
    obtain ⟨⟨declaration, _⟩, hd, h1⟩ := Option.bind_eq_some_iff.1 h
    obtain ⟨rest, rfl, hlt, hrest, hwords, hdecl⟩ := gathers_localDeclaration hV _ _ _ hws hd
    simp only [outcome_checkPunctuator, Option.bind_some] at h1
    split at h1
    next => cases h1
    next =>
      cases h1
      exact ⟨rest, rfl, by omega, hrest, by simpa using hwords, .declaration hdecl⟩
  next =>
    split at h
    next =>
      cases h
      exact ⟨ws, rfl, Nat.le_refl _, hws, nofun, .expressions nofun⟩
    next =>
      obtain ⟨rest, rfl, hlt, hrest, -, hall⟩ := commaSeparated_gathers gathers_expression hws h
      exact ⟨rest, rfl, by omega, hrest, fun t ht => (hall t ht).1,
        .expressions fun t ht => (hall t ht).2⟩

/-! ## Statements -/

variable {S : SourceTree → Prop} {statement : Parser Cursor SourceTree}

/-- The production of statements gives statements, and an `else` that follows belongs to none of the
`if`s in them. -/
def GathersStatements (V : Word → Prop) (S : SourceTree → Prop)
    (statement : Parser Cursor SourceTree) :
    Prop :=
  Gathers V statement fun tree rest =>
    S tree ∧ (tree.endsOpen = true → headKind rest ≠ .keyword .elseWord)

private theorem appends_blockStep (hs : GathersStatements V S statement) :
    Appends V (blockStep statement) S := by
  intro found us x cursor hus hx
  simp only [blockStep, outcome_bind, outcome_checkPunctuator, outcome_check, Option.bind_some,
    outcome_ite, outcome_unexpected, outcome_pure] at hx
  split at hx
  next => cases hx
  next =>
    split at hx
    next => cases hx
    next =>
      obtain ⟨⟨t, _⟩, ht, hx⟩ := Option.bind_eq_some_iff.1 hx
      obtain ⟨left, rfl, hlt, hleft, hwt, hSt, -⟩ := hs _ _ _ hus ht
      cases hx
      exact ⟨left, rfl, hlt, hleft, .inr ⟨t, rfl, hwt, hSt⟩⟩

private theorem blockStep_eq_none {found : List SourceTree}
    (h : (blockStep statement found).outcome (reading ws) = some (none, cursor)) :
    cursor = reading ws := by
  simp only [blockStep, outcome_bind, outcome_checkPunctuator, outcome_check, Option.bind_some,
    outcome_ite, outcome_unexpected, outcome_pure] at h
  split at h
  next =>
    cases h
    rfl
  next =>
    split at h
    next => cases h
    next =>
      obtain ⟨⟨t, _⟩, -, h⟩ := Option.bind_eq_some_iff.1 h
      cases h

/-- A block that is read is a block of statements; stray semicolons are statements in it. -/
theorem gathers_block (hV : Lexical V) (hs : GathersStatements V S statement) :
    Gathers V (block statement) fun tree _ => IsBlock S tree := by
  intro ws tree cursor hws h
  obtain ⟨token, _, hl, h1⟩ := outcome_bind_eq_some.1 h
  obtain ⟨vs, rfl, hlt, hvs, hspan⟩ := expectPunctuator_gathers hws hl
  obtain ⟨statements, _, hloop, h2⟩ := outcome_bind_eq_some.1 h1
  obtain ⟨left, rfl, hle, hleft, hall⟩ :=
    (appends_blockStep hs).repeating (fun _ _ _ => blockStep_eq_none) hvs hloop
  obtain ⟨_, _, hr, h3⟩ := outcome_bind_eq_some.1 h2
  obtain ⟨rest, rfl, hlt', hrest, -⟩ := expectPunctuator_gathers hleft hr
  cases h3
  refine ⟨rest, rfl, by omega, hrest, ?_, .intro _ fun t ht => (hall t ht).2⟩
  simp only [Tree.words, List.forall_mem_append, List.forall_mem_cons]
  exact ⟨⟨hV.punctuator _, forall_mem_wordsRow hV _ fun t ht => (hall t ht).1⟩, hV.punctuator _,
    nofun⟩

/-- An `if` that is read is one; an `else` belongs to the innermost. -/
private theorem gathers_ifStatement (hV : Lexical V) (hS : ∀ t, S t → t.isPresent = true)
    (hs : GathersStatements V S statement) :
    GathersStatements V (IsStatementOf S) (ifStatement statement) := by
  intro ws tree cursor hws h
  obtain ⟨token, _, hk, h1⟩ := outcome_bind_eq_some.1 h
  obtain ⟨vs, rfl, hlt, hvs, hspan⟩ := expectKeyword_gathers hws hk
  obtain ⟨condition, _, hc, h2⟩ := outcome_bind_eq_some.1 h1
  obtain ⟨us, rfl, hlt', hus, hwc, hcondition⟩ := gathers_condition _ _ _ hvs hc
  obtain ⟨thenStatement, _, ht, h3⟩ := outcome_bind_eq_some.1 h2
  obtain ⟨left, rfl, hlt'', hleft, hwt, hthen, hopen⟩ := hs _ _ _ hus ht
  obtain ⟨taken, _, he, h4⟩ := outcome_bind_eq_some.1 h3
  rcases eatKeyword_eq_some he with ⟨rfl, left', rfl, rfl⟩ | ⟨rfl, hne, rfl⟩
  · obtain ⟨elseStatement, _, hel, h5⟩ := outcome_bind_eq_some.1 h4
    obtain ⟨rest, rfl, hlt3, hrest, hwe, helse, hopen'⟩ :=
      hs _ _ _ (fun w hw => hleft w (List.mem_cons_of_mem _ hw)) hel
    cases h5
    have hclosed : thenStatement.endsOpen = false := by
      rw [← Bool.not_eq_true]
      exact fun hh => hopen hh rfl
    have hp := hS _ helse
    simp only [List.length_cons] at hlt''
    refine ⟨rest, rfl, by omega, hrest, ?_, .ifThenElse _ hcondition hthen hclosed helse, ?_⟩
    · simp only [Tree.words, hp, if_true, List.forall_mem_append, List.forall_mem_cons]
      exact ⟨⟨⟨hV.keyword _, hV.punctuator _, hwc⟩, hV.punctuator _, hwt⟩, hV.keyword _, hwe⟩
    · intro ho
      rw [Tree.endsOpen, hp, Bool.not_true, Bool.false_or] at ho
      exact hopen' ho
  · obtain ⟨elseStatement, _, hel, h5⟩ := outcome_bind_eq_some.1 h4
    cases hel
    cases h5
    refine ⟨left, rfl, by omega, hleft, ?_, .ifThen _ hcondition hthen, fun _ => hne⟩
    simp only [absent_eq, Tree.words, Tree.isPresent, Bool.false_eq_true, if_false, List.append_nil,
      List.forall_mem_append, List.forall_mem_cons]
    exact ⟨⟨hV.keyword _, hV.punctuator _, hwc⟩, hV.punctuator _, hwt⟩

private theorem gathers_whileStatement (hV : Lexical V) (hs : GathersStatements V S statement) :
    GathersStatements V (IsStatementOf S) (whileStatement statement) := by
  intro ws tree cursor hws h
  obtain ⟨token, _, hk, h1⟩ := outcome_bind_eq_some.1 h
  obtain ⟨vs, rfl, hlt, hvs, hspan⟩ := expectKeyword_gathers hws hk
  obtain ⟨condition, _, hc, h2⟩ := outcome_bind_eq_some.1 h1
  obtain ⟨us, rfl, hlt', hus, hwc, hcondition⟩ := gathers_condition _ _ _ hvs hc
  obtain ⟨body, _, hb, h3⟩ := outcome_bind_eq_some.1 h2
  obtain ⟨rest, rfl, hlt'', hrest, hwb, hbody, hopen⟩ := hs _ _ _ hus hb
  cases h3
  refine ⟨rest, rfl, by omega, hrest, ?_, .whileLoop _ hcondition hbody, ?_⟩
  · simp only [Tree.words, List.forall_mem_append, List.forall_mem_cons]
    exact ⟨⟨hV.keyword _, hV.punctuator _, hwc⟩, hV.punctuator _, hwb⟩
  · intro ho
    rw [Tree.endsOpen] at ho
    exact hopen ho

private theorem gathers_doStatement (hV : Lexical V) (hs : GathersStatements V S statement) :
    GathersStatements V (IsStatementOf S) (doStatement statement) := by
  intro ws tree cursor hws h
  obtain ⟨token, _, hk, h1⟩ := outcome_bind_eq_some.1 h
  obtain ⟨vs, rfl, hlt, hvs, hspan⟩ := expectKeyword_gathers hws hk
  obtain ⟨body, _, hb, h2⟩ := outcome_bind_eq_some.1 h1
  obtain ⟨us, rfl, hlt', hus, hwb, hbody, -⟩ := hs _ _ _ hvs hb
  obtain ⟨_, _, hw, h3⟩ := outcome_bind_eq_some.1 h2
  obtain ⟨left, rfl, hlt'', hleft, -⟩ := expectKeyword_gathers hus hw
  obtain ⟨condition, _, hc, h4⟩ := outcome_bind_eq_some.1 h3
  obtain ⟨left', rfl, hlt3, hleft', hwc, hcondition⟩ := gathers_condition _ _ _ hleft hc
  obtain ⟨_, _, hsemi, h5⟩ := outcome_bind_eq_some.1 h4
  obtain ⟨rest, rfl, hlt4, hrest, -⟩ := expectPunctuator_gathers hleft' hsemi
  cases h5
  refine ⟨rest, rfl, by omega, hrest, ?_, .doLoop _ hbody hcondition, by simp [Tree.endsOpen]⟩
  simp only [Tree.words, List.forall_mem_append, List.forall_mem_cons]
  exact ⟨⟨⟨hV.keyword _, hwb⟩, hV.keyword _, hV.punctuator _, hwc⟩, hV.punctuator _,
    hV.punctuator _, nofun⟩

/-- A loop with a head that is read is one. -/
private theorem gathers_forStatement (hV : Lexical V) (hs : GathersStatements V S statement) :
    GathersStatements V (IsStatementOf S) (forStatement statement) := by
  intro ws tree cursor hws h
  obtain ⟨token, _, hk, h1⟩ := outcome_bind_eq_some.1 h
  obtain ⟨v1, rfl, hlt1, hv1, hspan⟩ := expectKeyword_gathers hws hk
  obtain ⟨_, _, hl, h2⟩ := outcome_bind_eq_some.1 h1
  obtain ⟨v2, rfl, hlt2, hv2, -⟩ := expectPunctuator_gathers hv1 hl
  obtain ⟨initializers, _, hi, h3⟩ := outcome_bind_eq_some.1 h2
  obtain ⟨v3, rfl, hle3, hv3, hwi, hinit⟩ := forInitializers_gathers hV hv2 hi
  obtain ⟨_, _, hsemi, h4⟩ := outcome_bind_eq_some.1 h3
  obtain ⟨v4, rfl, hlt4, hv4, -⟩ := expectPunctuator_gathers hv3 hsemi
  obtain ⟨condition, _, hc, h5⟩ := outcome_bind_eq_some.1 h4
  obtain ⟨v5, rfl, hle5, hv5, hwc, hcondition⟩ := optionalExpression_gathers hv4 hc
  obtain ⟨_, _, hsemi', h6⟩ := outcome_bind_eq_some.1 h5
  obtain ⟨v6, rfl, hlt6, hv6, -⟩ := expectPunctuator_gathers hv5 hsemi'
  obtain ⟨updaters, _, hu, h7⟩ := outcome_bind_eq_some.1 h6
  obtain ⟨v7, rfl, hle7, hv7, hupdaters⟩ := optionalExpressions_gathers hv6 hu
  obtain ⟨_, _, hr, h8⟩ := outcome_bind_eq_some.1 h7
  obtain ⟨v8, rfl, hlt8, hv8, -⟩ := expectPunctuator_gathers hv7 hr
  obtain ⟨body, _, hb, h9⟩ := outcome_bind_eq_some.1 h8
  obtain ⟨rest, rfl, hlt9, hrest, hwb, hbody, hopen⟩ := hs _ _ _ hv8 hb
  cases h9
  refine ⟨rest, rfl, by omega, hrest, ?_,
    .forLoop _ hinit hcondition (fun u hu => (hupdaters u hu).2) hbody, ?_⟩
  · simp only [Tree.words, List.forall_mem_append, List.forall_mem_cons]
    exact ⟨⟨⟨⟨hV.keyword _, hV.punctuator _, forall_mem_wordsRow hV _ hwi⟩, hV.punctuator _, hwc⟩,
      hV.punctuator _, forall_mem_wordsRow hV _ fun u hu => (hupdaters u hu).1⟩,
      hV.punctuator _, hwb⟩
  · intro ho
    rw [Tree.endsOpen] at ho
    exact hopen ho

private theorem gathers_returnStatement (hV : Lexical V) :
    GathersStatements V (IsStatementOf S) returnStatement := by
  intro ws tree cursor hws h
  obtain ⟨token, _, hk, h1⟩ := outcome_bind_eq_some.1 h
  obtain ⟨vs, rfl, hlt, hvs, hspan⟩ := expectKeyword_gathers hws hk
  obtain ⟨value, _, hv, h2⟩ := outcome_bind_eq_some.1 h1
  obtain ⟨us, rfl, hle, hus, hwv, hvalue⟩ := optionalExpression_gathers hvs hv
  obtain ⟨_, _, hsemi, h3⟩ := outcome_bind_eq_some.1 h2
  obtain ⟨rest, rfl, hlt', hrest, -⟩ := expectPunctuator_gathers hus hsemi
  cases h3
  refine ⟨rest, rfl, by omega, hrest, ?_, .returnValue _ hvalue, by simp [Tree.endsOpen]⟩
  simp only [Tree.words, List.forall_mem_append, List.forall_mem_cons]
  exact ⟨⟨hV.keyword _, hwv⟩, hV.punctuator _, nofun⟩

private theorem gathers_throwStatement (hV : Lexical V) :
    GathersStatements V (IsStatementOf S) throwStatement := by
  intro ws tree cursor hws h
  obtain ⟨token, _, hk, h1⟩ := outcome_bind_eq_some.1 h
  obtain ⟨vs, rfl, hlt, hvs, hspan⟩ := expectKeyword_gathers hws hk
  obtain ⟨value, _, hv, h2⟩ := outcome_bind_eq_some.1 h1
  obtain ⟨us, rfl, hlt', hus, hwv, hvalue⟩ := gathers_expression _ _ _ hvs hv
  obtain ⟨_, _, hsemi, h3⟩ := outcome_bind_eq_some.1 h2
  obtain ⟨rest, rfl, hlt'', hrest, -⟩ := expectPunctuator_gathers hus hsemi
  cases h3
  refine ⟨rest, rfl, by omega, hrest, ?_, .throwValue _ hvalue, by simp [Tree.endsOpen]⟩
  simp only [Tree.words, List.forall_mem_append, List.forall_mem_cons]
  exact ⟨⟨hV.keyword _, hwv⟩, hV.punctuator _, nofun⟩

private theorem gathers_keywordStatement {keyword : Keyword} {kind : NodeKind String SourceTree}
    (hwords : ∀ w ∈ (Tree.node Span.nowhere kind).words, V w)
    (hkind : S (.node .nowhere kind)) (hclosed : (Tree.node Span.nowhere kind).endsOpen = false) :
    GathersStatements V S (keywordStatement keyword kind) := by
  intro ws tree cursor hws h
  obtain ⟨token, _, hk, h1⟩ := outcome_bind_eq_some.1 h
  obtain ⟨vs, rfl, hlt, hvs, hspan⟩ := expectKeyword_gathers hws hk
  obtain ⟨_, _, hsemi, h2⟩ := outcome_bind_eq_some.1 h1
  obtain ⟨rest, rfl, hlt', hrest, -⟩ := expectPunctuator_gathers hvs hsemi
  rw [hspan] at h2
  cases h2
  refine ⟨rest, rfl, by omega, hrest, hwords, hkind, fun ho => ?_⟩
  exact absurd (hclosed.symm.trans ho) nofun

private theorem gathers_plainStatement (hV : Lexical V) :
    GathersStatements V (IsStatementOf S) plainStatement := by
  intro ws tree cursor hws h
  simp only [plainStatement, outcome_bind, outcome_currentSpan, outcome_atDeclaration,
    Option.bind_some, outcome_ite] at h
  split at h
  next =>
    obtain ⟨⟨declaration, _⟩, hd, h1⟩ := Option.bind_eq_some_iff.1 h
    obtain ⟨vs, rfl, hlt, hvs, hwords, hdecl⟩ := gathers_localDeclaration hV _ _ _ hws hd
    obtain ⟨⟨_, _⟩, hsemi, h2⟩ := Option.bind_eq_some_iff.1 h1
    obtain ⟨rest, rfl, hlt', hrest, -⟩ := expectPunctuator_gathers hvs hsemi
    cases h2
    refine ⟨rest, rfl, by omega, hrest, hwords, .declaration hdecl, ?_⟩
    obtain ⟨_, _, _, _, _⟩ := hdecl
    simp [Tree.endsOpen]
  next =>
    obtain ⟨⟨expression, _⟩, he, h1⟩ := Option.bind_eq_some_iff.1 h
    obtain ⟨vs, rfl, hlt, hvs, hwords, hexpr⟩ := gathers_expression _ _ _ hws he
    obtain ⟨⟨_, _⟩, hsemi, h2⟩ := Option.bind_eq_some_iff.1 h1
    obtain ⟨rest, rfl, hlt', hrest, -⟩ := expectPunctuator_gathers hvs hsemi
    cases h2
    refine ⟨rest, rfl, by omega, hrest, ?_, .expression _ hexpr, by simp [Tree.endsOpen]⟩
    simp only [Tree.words, List.forall_mem_append, List.forall_mem_singleton]
    exact ⟨hwords, hV.punctuator _⟩

/-- A statement that is read is a statement. -/
theorem gathers_statementStep (hV : Lexical V) (hS : ∀ t, S t → t.isPresent = true)
    (hs : GathersStatements V S statement) :
    GathersStatements V (IsStatementOf S) (statementStep statement) := by
  intro ws tree cursor hws h
  simp only [statementStep, outcome_bind, outcome_currentKind, Option.bind_some] at h
  split at h
  next =>
    obtain ⟨rest, rfl, hlt, hrest, hwords, hblock⟩ := gathers_block hV hs _ _ _ hws h
    refine ⟨rest, rfl, hlt, hrest, hwords, .block hblock, ?_⟩
    obtain ⟨_, _⟩ := hblock
    simp [Tree.endsOpen]
  next hk =>
    obtain ⟨rest, rfl⟩ := exists_punctuator_of_headKind hk
    cases (outcome_leaf _ _ rest).symm.trans h
    refine ⟨rest, rfl, Nat.lt_succ_self _, fun w hw => hws w (List.mem_cons_of_mem _ hw), ?_,
      .empty _, by simp [Tree.endsOpen]⟩
    simpa [Tree.words] using hV.punctuator _
  next => exact gathers_ifStatement hV hS hs _ _ _ hws h
  next => exact gathers_whileStatement hV hs _ _ _ hws h
  next => exact gathers_doStatement hV hs _ _ _ hws h
  next => exact gathers_forStatement hV hs _ _ _ hws h
  next => exact gathers_returnStatement hV _ _ _ hws h
  next =>
    refine gathers_keywordStatement ?_ (.breakLoop _) (by simp [Tree.endsOpen]) _ _ _ hws h
    simpa [Tree.words] using ⟨hV.keyword _, hV.punctuator _⟩
  next =>
    refine gathers_keywordStatement ?_ (.continueLoop _) (by simp [Tree.endsOpen]) _ _ _ hws h
    simpa [Tree.words] using ⟨hV.keyword _, hV.punctuator _⟩
  next => exact gathers_throwStatement hV _ _ _ hws h
  next => cases h
  next => cases h
  next => exact gathers_plainStatement hV _ _ _ hws h

/-- A statement is not missing. -/
theorem IsStatementOf.isPresent (h : IsStatementOf S tree) : tree.isPresent = true := by
  cases h with
  | block h =>
    obtain ⟨_, _⟩ := h
    rfl
  | declaration h =>
    obtain ⟨_, _, _, _, _⟩ := h
    rfl
  | _ => rfl

private theorem gathersStatements_statementUpTo (hV : Lexical V) (depth : Nat) :
    GathersStatements V (StatementFits depth) (statementUpTo depth) := by
  induction depth with
  | zero =>
    intro ws tree cursor hws h
    cases h
  | succ depth ih =>
    refine gathers_statementStep hV (fun t ht => ?_) ih
    cases depth with
    | zero => cases ht
    | succ depth => exact IsStatementOf.isPresent ht

/-- A statement that is read is a statement. -/
theorem gathersStatements_statement (hV : Lexical V) :
    GathersStatements V IsStatement Grammar.statement := by
  intro ws tree cursor hws h
  rw [Grammar.statement, bounded, outcome_bind, outcome_place, Option.bind_some] at h
  obtain ⟨rest, hc, hlt, hrest, hwords, ht, hopen⟩ :=
    gathersStatements_statementUpTo hV _ ws tree cursor hws h
  exact ⟨rest, hc, hlt, hrest, hwords, ⟨_, ht⟩, hopen⟩

end JavaFold.Grammar
