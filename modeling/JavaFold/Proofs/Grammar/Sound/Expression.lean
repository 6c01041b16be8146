import JavaFold.Proofs.Grammar.Sound.Type

/-!
# Expressions that are read

An expression that is read is of the class of its level, and its words are the words that were
taken. What a production leaves matters where a class says more than the shape of the tree:
operators that join operands end before an operator that binds less, and a name ends before a step
that is called.
-/

namespace JavaFold.Grammar

open Cursor

variable {S : Phrases} {sub : Level → Parser Cursor SourceTree} {ws rest : List Word}
    {cursor : Cursor}
variable {tree : SourceTree}

/-- What is known of the first word that an expression of a level leaves. -/
def Ended : Level → TokenKind → Prop
  | .binary least, kind =>
    (kind = .keyword .instanceofWord → instanceofPrecedence < least) ∧
      ∀ operator : InfixOperator, kind = .punctuator operator.punctuator →
        operator.precedence < least
  | _, _ => True

/-- The productions of every level give trees of their classes. -/
def SoundLevels (S : Phrases) (sub : Level → Parser Cursor SourceTree) : Prop :=
  ∀ level, Sound (sub level) fun tree rest => S level tree ∧ Ended level (headKind rest)

/-! ## Rows -/

/-- What the first item and every further one keep holds of items with commas between them. -/
theorem commaSeparated_invariant {item : Parser Cursor SourceTree}
    (Inv : List SourceTree → List Word → Prop) {trees : List SourceTree}
    (hfirst : ∀ t c, item.outcome (reading ws) = some (t, c) → ∃ rest, c = reading rest ∧
        Inv [t] rest)
    (hnext : ∀ found vs t c, Inv found (.punctuator .comma :: vs) →
      item.outcome (reading vs) = some (t, c) →
        ∃ rest, c = reading rest ∧ rest.length ≤ vs.length ∧ Inv (found ++ [t]) rest)
    (h : (commaSeparated item).outcome (reading ws) = some (trees, cursor)) :
    ∃ rest, cursor = reading rest ∧ Inv trees rest := by
  obtain ⟨first, middle, hf, hloop⟩ := outcome_bind_eq_some.1 h
  obtain ⟨rest, rfl, hinit⟩ := hfirst _ _ hf
  have hstep : ∀ found vs x cursor, Inv found vs →
      (do if ← eatPunctuator .comma then return some (found ++ [← item]) else return none :
        Parser Cursor (Option (List SourceTree))).outcome (reading vs) = some (some x, cursor) →
        ∃ left, cursor = reading left ∧ left.length < vs.length ∧ Inv x left := by
    intro found vs x cursor hinv hs
    obtain ⟨taken, middle, he, hx⟩ := outcome_bind_eq_some.1 hs
    rcases eatPunctuator_eq_some he with ⟨rfl, us, rfl, rfl⟩ | ⟨rfl, -, rfl⟩
    · obtain ⟨t, middle, ht, hx⟩ := outcome_bind_eq_some.1 hx
      obtain ⟨left, rfl, hle, hinv'⟩ := hnext found us t middle hinv ht
      cases hx
      exact ⟨left, rfl, Nat.lt_succ_of_le hle, hinv'⟩
    · cases hx
  have hstop : ∀ found vs cursor, Inv found vs →
      (do if ← eatPunctuator .comma then return some (found ++ [← item]) else return none :
        Parser Cursor (Option (List SourceTree))).outcome (reading vs) = some (none, cursor) →
        cursor = reading vs := by
    rintro found vs cursor - hs
    obtain ⟨taken, middle, he, hx⟩ := outcome_bind_eq_some.1 hs
    rcases eatPunctuator_eq_some he with ⟨rfl, us, rfl, rfl⟩ | ⟨rfl, -, rfl⟩
    · obtain ⟨t, middle, -, hx⟩ := outcome_bind_eq_some.1 hx
      cases hx
    · cases hx
      rfl
  obtain ⟨left, rfl, hinv, -⟩ := repeating_sound Inv hstep hstop hinit hloop
  exact ⟨left, rfl, hinv⟩

/-- Items with commas between them that are read. -/
theorem commaSeparated_sound {item : Parser Cursor SourceTree} {Q : SourceTree → Prop}
    (hitem : Sound item fun tree _ => Q tree) {trees : List SourceTree}
    (h : (commaSeparated item).outcome (reading ws) = some (trees, cursor)) :
    ∃ rest, cursor = reading rest ∧ ws = Tree.wordsRow .plain trees ++ rest ∧ trees ≠ [] ∧
      ∀ t ∈ trees, Q t := by
  refine commaSeparated_invariant
    (fun found left => ws = Tree.wordsRow .plain found ++ left ∧ found ≠ [] ∧ ∀ t ∈ found, Q t)
    ?_ ?_ h
  · intro t c ht
    obtain ⟨rest, rfl, rfl, hq⟩ := hitem _ _ _ ht
    exact ⟨rest, rfl, by rw [Tree.wordsRow_plain_cons]; simp, by simp, by simpa using hq⟩
  · rintro found vs t c ⟨hw, hne, hfound⟩ ht
    obtain ⟨rest, rfl, rfl, hq⟩ := hitem _ _ _ ht
    obtain ⟨u, us, rfl⟩ := List.exists_cons_of_ne_nil hne
    refine ⟨rest, rfl, by simp, ?_, by simp, ?_⟩
    · rw [hw, List.cons_append, Tree.wordsRow_plain_cons, Tree.wordsRow_plain_cons]
      simp
    · rw [List.forall_mem_append, List.forall_mem_singleton]
      exact ⟨hfound, hq⟩

/-- Arguments that are read. -/
theorem arguments_sound (hsub : SoundLevels S sub) {arguments : List SourceTree}
    (h : (Grammar.arguments sub).outcome (reading ws) = some (arguments, cursor)) :
    ∃ rest, cursor = reading rest ∧
      ws = .punctuator .lparen :: (Tree.wordsRow .plain arguments ++ .punctuator .rparen :: rest) ∧
      ∀ a ∈ arguments, S .expression a := by
  have hitem : Sound (sub .expression) fun tree _ => S .expression tree := by
    intro ws tree cursor h
    obtain ⟨rest, hc, hw, hS, -⟩ := hsub .expression ws tree cursor h
    exact ⟨rest, hc, hw, hS⟩
  obtain ⟨_, middle, hl, h1⟩ := outcome_bind_eq_some.1 h
  obtain ⟨vs, rfl, -, rfl⟩ := expectPunctuator_eq_some hl
  obtain ⟨closed, middle, hk, h2⟩ := outcome_bind_eq_some.1 h1
  cases (outcome_checkPunctuator .rparen vs).symm.trans hk
  dsimp only at h2
  rw [outcome_ite] at h2
  split at h2
  next =>
    obtain ⟨_, _, hf, h3⟩ := outcome_bind_eq_some.1 h2
    cases hf
    obtain ⟨_, _, hr, h4⟩ := outcome_bind_eq_some.1 h3
    obtain ⟨rest, rfl, -, rfl⟩ := expectPunctuator_eq_some hr
    cases h4
    exact ⟨rest, rfl, rfl, nofun⟩
  next =>
    obtain ⟨found, _, hf, h3⟩ := outcome_bind_eq_some.1 h2
    obtain ⟨left, rfl, rfl, -, hall⟩ := commaSeparated_sound hitem hf
    obtain ⟨_, _, hr, h4⟩ := outcome_bind_eq_some.1 h3
    obtain ⟨rest, rfl, -, rfl⟩ := expectPunctuator_eq_some hr
    cases h4
    exact ⟨rest, rfl, rfl, hall⟩

/-! ## Operands -/

/-- A step `.a` that follows the words is called. -/
def NameEnds (ws : List Word) : Prop :=
  StopsName ws ∨ headKind (ws.drop 2) = .punctuator .lparen

private theorem qualifiedOperandStep_eq_some {name x : SourceTree}
    (h : (qualifiedOperandStep .nowhere name).outcome (reading ws) = some (some x, cursor)) :
    ∃ text rest, ws = .punctuator .dot :: .identifier text :: rest ∧
      x = .node .nowhere (.qualifiedName name (.node .nowhere (.simpleName text))) ∧
      cursor = reading rest := by
  simp only [qualifiedOperandStep, outcome_bind, outcome_kindAt, Option.bind_some,
    outcome_ite] at h
  split at h
  next => cases h
  next => exact qualifiedStep_eq_some h

private theorem qualifiedOperandStep_eq_none {name : SourceTree}
    (h : (qualifiedOperandStep .nowhere name).outcome (reading ws) = some (none, cursor)) :
    cursor = reading ws ∧ NameEnds ws := by
  simp only [qualifiedOperandStep, outcome_bind, outcome_kindAt, Option.bind_some,
    outcome_ite] at h
  split at h
  next hk =>
    cases h
    exact ⟨rfl, .inr (beq_iff_eq.1 hk)⟩
  next =>
    obtain ⟨hc, hs⟩ := qualifiedStep_eq_none h
    exact ⟨hc, .inl hs⟩

/-- A name read as an operand is a name, and ends where it is called or where no word follows a
point. -/
private theorem repeating_qualifiedOperandStep_sound {first : SourceTree} (hf : IsName first)
    (h : (repeating (qualifiedOperandStep .nowhere) first).outcome (reading ws) =
      some (tree, cursor)) :
    ∃ rest, cursor = reading rest ∧ first.words ++ ws = tree.words ++ rest ∧ IsName tree ∧
      NameEnds rest := by
  have hgrows : Grows (qualifiedOperandStep .nowhere) fun name _ => IsName name := by
    intro name vs x cursor hn hs
    obtain ⟨text, left, rfl, rfl, rfl⟩ := qualifiedOperandStep_eq_some hs
    exact ⟨left, rfl, by grind, by simp [Tree.words], .qualified _ hn (.intro _ _)⟩
  obtain ⟨left, rfl, hw, hn, hstop⟩ := hgrows.repeating
    (fun _ _ _ hs => (qualifiedOperandStep_eq_none hs).1) hf h
  exact ⟨left, rfl, hw, hn, (qualifiedOperandStep_eq_none hstop).2⟩

private theorem typeLiteral_eq_some {type : SourceTree}
    (h : (typeLiteral .nowhere type).outcome (reading ws) = some (tree, cursor)) :
    ∃ rest, ws = .punctuator .dot :: .keyword .classWord :: rest ∧
      tree = .node .nowhere (.typeLiteral type) ∧ cursor = reading rest := by
  obtain ⟨_, _, hd, h1⟩ := outcome_bind_eq_some.1 h
  obtain ⟨vs, rfl, -, rfl⟩ := expectPunctuator_eq_some hd
  obtain ⟨_, _, hc, h2⟩ := outcome_bind_eq_some.1 h1
  obtain ⟨rest, rfl, -, rfl⟩ := expectKeyword_eq_some hc
  cases h2
  exact ⟨rest, rfl, rfl, rfl⟩

/-- A type literal that is read, its type without dimensions having been taken. -/
theorem dimensions_typeLiteral_sound {element : SourceTree} (he : IsType true element)
    (h : (do typeLiteral .nowhere (← dimensions .nowhere element)).outcome (reading ws) =
      some (tree, cursor)) :
    ∃ rest, cursor = reading rest ∧ element.words ++ ws = tree.words ++ rest ∧
      IsPrimary S tree ∧ ¬ IsName tree := by
  obtain ⟨type, middle, hd, h1⟩ := outcome_bind_eq_some.1 h
  obtain ⟨left, rfl, hw, ht, -⟩ := dimensions_sound he hd
  obtain ⟨rest, rfl, rfl, rfl⟩ := typeLiteral_eq_some h1
  refine ⟨rest, rfl, ?_, .typeLiteral _ ht, nofun⟩
  rw [hw, Tree.words, List.append_assoc]
  rfl

/-- An operand that starts with a name. -/
theorem sound_nameOperand (hsub : SoundLevels S sub) :
    Sound (nameOperand sub) fun tree rest =>
      IsPrimary S tree ∧ (IsName tree → NameEnds rest) := by
  intro ws tree cursor h
  simp only [nameOperand, outcome_bind, outcome_currentSpan, Option.bind_some] at h
  obtain ⟨⟨first, middle⟩, hf, h1⟩ := Option.bind_eq_some_iff.1 h
  obtain ⟨text, vs, rfl, rfl, rfl⟩ := simpleName_eq_some hf
  simp only [outcome_checkPunctuator, Option.bind_some, outcome_ite] at h1
  split at h1
  next =>
    obtain ⟨arguments, middle, ha, h2⟩ := outcome_bind_eq_some.1 h1
    obtain ⟨rest, rfl, rfl, hall⟩ := arguments_sound hsub ha
    cases h2
    refine ⟨rest, rfl, ?_, .call _ (.intro _ _) hall, by rintro ⟨⟨⟩⟩⟩
    simp [Tree.words, Tree.isPresent]
  next =>
    obtain ⟨name, middle, hn, h2⟩ := outcome_bind_eq_some.1 h1
    obtain ⟨left, rfl, hw, hname, hends⟩ := repeating_qualifiedOperandStep_sound
      (.simple (.intro .nowhere text)) hn
    have hw : Word.identifier text :: vs = name.words ++ left := hw
    simp only [outcome_bind, outcome_checkPunctuator, outcome_kindAt, Option.bind_some,
      outcome_ite, outcome_node, merge_nowhere, outcome_pure] at h2
    have hsimple : IsType true (.node .nowhere (.simpleType name)) := .element (.named _ hname)
    split at h2
    next =>
      obtain ⟨rest, rfl, rfl, rfl⟩ := typeLiteral_eq_some h2
      refine ⟨rest, rfl, ?_, .typeLiteral _ hsimple, by rintro ⟨⟨⟩⟩⟩
      rw [hw, Tree.words, List.append_assoc]
      rfl
    next =>
      split at h2
      next =>
        obtain ⟨rest, rfl, hw', hp, hnn⟩ := dimensions_typeLiteral_sound hsimple
          ((outcome_bind _ _ _).trans h2)
        exact ⟨rest, rfl, hw.trans hw', hp, fun hn => absurd hn hnn⟩
      next =>
        cases h2
        exact ⟨left, rfl, hw, .name hname, fun _ => hends⟩

/-- A new object that is read. -/
theorem sound_instanceCreation (hsub : SoundLevels S sub) :
    Sound (instanceCreation sub) fun tree _ => IsPrimary S tree ∧ ¬ IsName tree := by
  intro ws tree cursor h
  obtain ⟨token, _, hk, h1⟩ := outcome_bind_eq_some.1 h
  obtain ⟨vs, rfl, hspan, rfl⟩ := expectKeyword_eq_some hk
  simp only [outcome_bind, outcome_check, Option.bind_some, outcome_ite, outcome_currentSpan,
    outcome_unsupported, hspan] at h1
  split at h1
  next => cases h1
  next =>
    obtain ⟨⟨name, _⟩, hn, h2⟩ := Option.bind_eq_some_iff.1 h1
    obtain ⟨us, rfl, rfl, hname, -⟩ := sound_name _ _ _ hn
    simp only [outcome_node, Option.bind_some, outcome_checkPunctuator, merge_nowhere] at h2
    split at h2
    next => cases h2
    next =>
      obtain ⟨⟨arguments, _⟩, ha, h3⟩ := Option.bind_eq_some_iff.1 h2
      obtain ⟨rest, rfl, rfl, hall⟩ := arguments_sound hsub ha
      simp only [outcome_checkPunctuator, Option.bind_some] at h3
      split at h3
      next => cases h3
      next =>
        cases h3
        refine ⟨rest, rfl, ?_, .creation _ _ hname hall, nofun⟩
        simp [Tree.words]

@[simp] theorem outcome_leaf (kind : NodeKind String SourceTree) (w : Word) (ws : List Word) :
    (leaf kind).outcome (reading (w :: ws)) = some (.node .nowhere kind, reading ws) := by
  simp [leaf]

/-- A word that is an operand by itself. -/
private theorem leaf_sound {kind : NodeKind String SourceTree} {w : Word}
    (h : (leaf kind).outcome (reading (w :: ws)) = some (tree, cursor))
    (hw : (Tree.node .nowhere kind).words = [w]) (hp : IsPrimary S (.node .nowhere kind))
    (hn : ¬ IsName (.node .nowhere kind)) :
    ∃ rest, cursor = reading rest ∧ w :: ws = tree.words ++ rest ∧
      IsPrimary S tree ∧ (IsName tree → NameEnds rest) := by
  rw [outcome_leaf] at h
  cases h
  exact ⟨ws, rfl, by rw [hw]; rfl, hp, fun h => absurd h hn⟩

/-- A primitive type is an operand only as a type literal. -/
private theorem primitive_sound {primitive : PrimitiveType}
    (h : (do typeLiteral .nowhere (← dimensions .nowhere (← primitiveType primitive)) :
        Parser Cursor SourceTree).outcome (reading (.keyword (.primitive primitive) :: ws)) =
      some (tree, cursor)) :
    ∃ rest, cursor = reading rest ∧ .keyword (.primitive primitive) :: ws = tree.words ++ rest ∧
      IsPrimary S tree ∧ ¬ IsName tree := by
  have helement : IsType true (.node .nowhere (.primitiveType primitive)) :=
    .element (.primitive _ fun _ => rfl)
  simp only [primitiveType, outcome_bind, outcome_advance, Option.bind_some, outcome_build] at h
  exact dimensions_typeLiteral_sound helement ((outcome_bind _ _ _).trans h)

private theorem parenthesized_sound (hsub : SoundLevels S sub)
    (h : (do
      let _ ← advance
      let expression ← sub .expression
      let _ ← expectPunctuator .rparen
      node .nowhere (.parenthesizedExpression expression)).outcome
        (reading (.punctuator .lparen :: ws)) = some (tree, cursor)) :
    ∃ rest, cursor = reading rest ∧ .punctuator .lparen :: ws = tree.words ++ rest ∧
      IsPrimary S tree ∧ ¬ IsName tree := by
  simp only [outcome_bind, outcome_advance, Option.bind_some] at h
  obtain ⟨⟨expression, _⟩, he, h1⟩ := Option.bind_eq_some_iff.1 h
  obtain ⟨us, rfl, rfl, hS, -⟩ := hsub .expression _ _ _ he
  obtain ⟨⟨_, _⟩, hr, h2⟩ := Option.bind_eq_some_iff.1 h1
  obtain ⟨rest, rfl, -, rfl⟩ := expectPunctuator_eq_some hr
  cases h2
  refine ⟨rest, rfl, ?_, .parenthesized _ hS, by rintro ⟨⟨⟩⟩⟩
  simp [Tree.words]

/-- An operand without selectors that is read. -/
theorem sound_primary (hsub : SoundLevels S sub) :
    Sound (primary sub) fun tree rest => IsPrimary S tree ∧ (IsName tree → NameEnds rest) := by
  intro ws tree cursor h
  simp only [primary, outcome_bind, outcome_current, Option.bind_some] at h
  cases ws with
  | nil => cases h
  | cons w vs =>
    cases w with
    | identifier text => exact sound_nameOperand hsub _ _ _ h
    | number text => exact leaf_sound h rfl (.number _ _) (by rintro ⟨⟨⟩⟩)
    | character text => exact leaf_sound h rfl (.character _ _) (by rintro ⟨⟨⟩⟩)
    | string text => exact leaf_sound h rfl (.string _ _) (by rintro ⟨⟨⟩⟩)
    | keyword k =>
      simp only [kind_current, headKind_cons, Word.kind] at h
      split at h <;> rename_i he <;> try contradiction
      all_goals cases he
      · exact leaf_sound h rfl (.boolean _ true) (by rintro ⟨⟨⟩⟩)
      · exact leaf_sound h rfl (.boolean _ false) (by rintro ⟨⟨⟩⟩)
      · exact leaf_sound h rfl (.null _) (by rintro ⟨⟨⟩⟩)
      · exact leaf_sound h rfl (.this _) (by rintro ⟨⟨⟩⟩)
      · obtain ⟨rest, rfl, hw, hp, hn⟩ := sound_instanceCreation hsub _ _ _ h
        exact ⟨rest, rfl, hw, hp, fun h => absurd h hn⟩
      · rw [span_current] at h
        obtain ⟨rest, rfl, hw, hp, hn⟩ := primitive_sound h
        exact ⟨rest, rfl, hw, hp, fun h => absurd h hn⟩
    | punctuator p =>
      simp only [kind_current, headKind_cons, Word.kind] at h
      split at h <;> rename_i he <;> try contradiction
      cases he
      rw [span_current] at h
      obtain ⟨rest, rfl, hw, hp, hn⟩ := parenthesized_sound hsub h
      exact ⟨rest, rfl, hw, hp, fun h => absurd h hn⟩

/-! ## Selectors and operators after an operand -/

/-- A selector that is read makes a selection, which is no name. -/
private theorem selectorStep_eq_some (hsub : SoundLevels S sub) (hS : Regular S)
    {operand x : SourceTree}
    (ho : IsSelected S operand) (hends : IsName operand → NameEnds ws)
    (h : (selectorStep sub .nowhere operand).outcome (reading ws) = some (some x, cursor)) :
    ∃ rest, cursor = reading rest ∧ rest.length < ws.length ∧
      operand.words ++ ws = x.words ++ rest ∧ IsSelected S x ∧ ¬ IsName x := by
  obtain ⟨taken, _, he, h1⟩ := outcome_bind_eq_some.1 h
  rcases eatPunctuator_eq_some he with ⟨rfl, vs, rfl, rfl⟩ | ⟨rfl, -, rfl⟩
  · obtain ⟨name, _, hn, h2⟩ := outcome_bind_eq_some.1 h1
    obtain ⟨text, us, rfl, rfl, rfl⟩ := simpleName_eq_some hn
    simp only [outcome_bind, outcome_checkPunctuator, Option.bind_some, outcome_ite] at h2
    split at h2
    next =>
      obtain ⟨⟨arguments, _⟩, ha, h3⟩ := Option.bind_eq_some_iff.1 h2
      obtain ⟨rest, rfl, rfl, hall⟩ := arguments_sound hsub ha
      cases h3
      refine ⟨rest, rfl, by grind, ?_, .call _ ho (.intro _ _) hall, nofun⟩
      simp [Tree.words, (ho.opens hS).isPresent]
    next hp =>
      cases h2
      have hno : ¬ IsName operand := by
        intro hno
        rcases hends hno with hstop | hcall
        · exact hstop rfl rfl
        · exact hp (beq_iff_eq.2 hcall)
      refine ⟨us, rfl, by grind, ?_, .field _ ho hno (.intro _ _), nofun⟩
      simp [Tree.words]
  · obtain ⟨taken, _, he, h2⟩ := outcome_bind_eq_some.1 h1
    rcases eatPunctuator_eq_some he with ⟨rfl, vs, rfl, rfl⟩ | ⟨rfl, -, rfl⟩
    · obtain ⟨index, _, hi, h3⟩ := outcome_bind_eq_some.1 h2
      obtain ⟨us, rfl, rfl, hindex, -⟩ := hsub .expression _ _ _ hi
      obtain ⟨_, _, hr, h4⟩ := outcome_bind_eq_some.1 h3
      obtain ⟨rest, rfl, -, rfl⟩ := expectPunctuator_eq_some hr
      cases h4
      refine ⟨rest, rfl, by grind, ?_, .element _ ho hindex, nofun⟩
      simp [Tree.words]
    · cases h2

/-- Where no selector is read, nothing is taken. -/
private theorem selectorStep_eq_none {operand : SourceTree}
    (h : (selectorStep sub .nowhere operand).outcome (reading ws) = some (none, cursor)) :
    cursor = reading ws := by
  obtain ⟨taken, _, he, h1⟩ := outcome_bind_eq_some.1 h
  rcases eatPunctuator_eq_some he with ⟨rfl, vs, rfl, rfl⟩ | ⟨rfl, -, rfl⟩
  · obtain ⟨name, _, hn, h2⟩ := outcome_bind_eq_some.1 h1
    obtain ⟨text, us, rfl, rfl, rfl⟩ := simpleName_eq_some hn
    simp only [outcome_bind, outcome_checkPunctuator, Option.bind_some, outcome_ite] at h2
    split at h2
    next =>
      obtain ⟨⟨arguments, _⟩, ha, h3⟩ := Option.bind_eq_some_iff.1 h2
      obtain ⟨⟨_, _⟩, -, h4⟩ := Option.bind_eq_some_iff.1 h3
      cases h4
    next => cases h2
  · obtain ⟨taken, _, he, h2⟩ := outcome_bind_eq_some.1 h1
    rcases eatPunctuator_eq_some he with ⟨rfl, vs, rfl, rfl⟩ | ⟨rfl, -, rfl⟩
    · obtain ⟨index, _, hi, h3⟩ := outcome_bind_eq_some.1 h2
      obtain ⟨_, _, hr, h4⟩ := outcome_bind_eq_some.1 h3
      obtain ⟨_, _, -, h5⟩ := outcome_bind_eq_some.1 h4
      cases h5
    · cases h2
      rfl

/-- Selectors that are read make selections, one around the other. -/
private theorem repeating_selectorStep_sound (hsub : SoundLevels S sub) (hS : Regular S)
    {first : SourceTree} (hf : IsPrimary S first) (hends : IsName first → NameEnds ws)
    (h : (repeating (selectorStep sub .nowhere) first).outcome (reading ws) =
      some (tree, cursor)) :
    ∃ rest, cursor = reading rest ∧ first.words ++ ws = tree.words ++ rest ∧
      IsSelected S tree := by
  have hgrows : Grows (selectorStep sub .nowhere) fun operand left =>
      IsSelected S operand ∧ (IsName operand → NameEnds left) := by
    rintro operand vs x cursor ⟨ho, he⟩ hs
    obtain ⟨left, rfl, hlt, hx, hsel, hno⟩ := selectorStep_eq_some hsub hS ho he hs
    exact ⟨left, rfl, hlt, hx, hsel, fun hn => absurd hn hno⟩
  obtain ⟨left, rfl, hw, ⟨hsel, -⟩, -⟩ := hgrows.repeating
    (fun _ _ _ => selectorStep_eq_none) ⟨.primary hf, hends⟩ h
  exact ⟨left, rfl, hw, hsel⟩

private theorem postfixStep_eq_some {operand x : SourceTree}
    (h : (postfixStep .nowhere operand).outcome (reading ws) = some (some x, cursor)) :
    ∃ operator rest, ws = .punctuator (PostfixOperator.punctuator operator) :: rest ∧
      x = .node .nowhere (.postfixExpression operator operand) ∧ cursor = reading rest := by
  simp only [postfixStep, outcome_bind, outcome_currentKind, Option.bind_some] at h
  split at h
  next operator ho =>
    obtain ⟨p, hk, hp⟩ := TokenKind.punctuator?_bind_eq_some.1 ho
    cases Punctuator.postfixOperator?_eq_some.1 hp
    obtain ⟨rest, rfl⟩ := exists_punctuator_of_headKind hk
    simp only [outcome_bind, outcome_advance, Option.bind_some] at h
    cases h
    exact ⟨operator, rest, rfl, rfl, rfl⟩
  next => cases h

private theorem postfixStep_eq_none {operand : SourceTree}
    (h : (postfixStep .nowhere operand).outcome (reading ws) = some (none, cursor)) :
    cursor = reading ws := by
  simp only [postfixStep, outcome_bind, outcome_currentKind, Option.bind_some] at h
  split at h
  next operator ho =>
    obtain ⟨_, _, -, h1⟩ := outcome_bind_eq_some.1 h
    obtain ⟨_, _, -, h2⟩ := outcome_bind_eq_some.1 h1
    cases h2
  next =>
    cases h
    rfl

/-- An operand with its selectors and the operators after it that is read. -/
theorem sound_postfixed (hsub : SoundLevels S sub) (hS : Regular S) :
    Sound (postfixed sub) fun tree _ => IsPostfixed S tree := by
  intro ws tree cursor h
  simp only [postfixed, outcome_bind, outcome_currentSpan, Option.bind_some] at h
  obtain ⟨⟨first, _⟩, hf, h1⟩ := Option.bind_eq_some_iff.1 h
  obtain ⟨vs, rfl, rfl, hfirst, hends⟩ := sound_primary hsub _ _ _ hf
  obtain ⟨⟨selected, _⟩, hs, h2⟩ := Option.bind_eq_some_iff.1 h1
  obtain ⟨us, rfl, hw, hselected⟩ := repeating_selectorStep_sound hsub hS hfirst hends hs
  have hgrows : Grows (postfixStep .nowhere) fun operand _ => IsPostfixed S operand := by
    intro operand vs x cursor ho hs
    obtain ⟨operator, left, rfl, rfl, rfl⟩ := postfixStep_eq_some hs
    exact ⟨left, rfl, by simp, by simp [Tree.words], .operator _ _ ho⟩
  obtain ⟨left, rfl, hw', hp, -⟩ := hgrows.repeating
    (fun _ _ _ => postfixStep_eq_none) (.selected hselected) h2
  exact ⟨left, rfl, hw.trans hw', hp⟩

/-! ## Operators and casts before an operand -/

/-- An operand with operators and casts before it that is read. -/
theorem sound_unary (hsub : SoundLevels S sub) (hS : Regular S) :
    Sound (unary sub) fun tree _ => IsUnary S tree := by
  intro ws tree cursor h
  simp only [unary, outcome_bind, outcome_currentSpan, outcome_currentKind, Option.bind_some] at h
  split at h
  next operator ho =>
    obtain ⟨p, hk, hp⟩ := TokenKind.punctuator?_bind_eq_some.1 ho
    cases Punctuator.prefixOperator?_eq_some.1 hp
    obtain ⟨vs, rfl⟩ := exists_punctuator_of_headKind hk
    simp only [outcome_bind, outcome_advance, Option.bind_some] at h
    obtain ⟨⟨operand, _⟩, hop, h1⟩ := Option.bind_eq_some_iff.1 h
    obtain ⟨rest, rfl, rfl, hoperand, -⟩ := hsub .unary _ _ _ hop
    cases h1
    exact ⟨rest, rfl, rfl, .operator _ _ hoperand⟩
  next =>
    simp only [outcome_bind, outcome_checkPunctuator, outcome_atCast, Option.bind_some,
      outcome_ite] at h
    split at h
    next hc =>
      obtain ⟨hp, hcast⟩ := (Bool.and_eq_true _ _).mp hc
      obtain ⟨vs, rfl⟩ := exists_punctuator_of_headKind (beq_iff_eq.1 hp)
      simp only [outcome_advance, Option.bind_some] at h
      obtain ⟨⟨type, _⟩, ht, h1⟩ := Option.bind_eq_some_iff.1 h
      obtain ⟨us, rfl, rfl, htype⟩ := sound_type false _ _ _ ht
      obtain ⟨⟨_, _⟩, hr, h2⟩ := Option.bind_eq_some_iff.1 h1
      obtain ⟨left, rfl, -, rfl⟩ := expectPunctuator_eq_some hr
      obtain ⟨⟨operand, _⟩, hop, h3⟩ := Option.bind_eq_some_iff.1 h2
      obtain ⟨rest, rfl, rfl, hoperand, -⟩ := hsub .unary _ _ _ hop
      cases h3
      have hskip : skipType (type.words ++ .punctuator .rparen :: (operand.words ++ rest)) =
          some (.punctuator .rparen :: (operand.words ++ rest)) :=
        skipType_type_cons htype nofun nofun
      rw [startsCast_of_skipType hskip, headKind_append_of_ne_nil htype.words_ne_nil,
        (hS _ _ hoperand).headKind_append, Bool.or_eq_true] at hcast
      refine ⟨rest, rfl, ?_, .cast _ htype hoperand hcast⟩
      simp [Tree.words]
    next =>
      obtain ⟨rest, rfl, hw, hp⟩ := sound_postfixed hsub hS _ _ _ h
      exact ⟨rest, rfl, hw, .postfixed hp⟩

/-! ## Infix operators -/

/-- What an expression leaves, as far as the operands around it are concerned. -/
def Spared (kind : TokenKind) : SourceTree → Prop
  | .node _ (.infixExpression operator ..) => Ended (.binary (operator.precedence + 1)) kind
  | _ => True

private theorem Spared.admits_of_infixOperator {operator : InfixOperator}
    (h : Spared (.punctuator operator.punctuator) tree) : Admits operator.precedence tree := by
  unfold Admits
  unfold Spared at h
  split
  next => exact Nat.le_of_lt_succ (h.2 operator rfl)
  next => trivial

private theorem Spared.admits_instanceof (h : Spared (.keyword .instanceofWord) tree) :
    Admits instanceofPrecedence tree := by
  unfold Admits
  unfold Spared at h
  split
  next => exact Nat.le_of_lt_succ (h.1 rfl)
  next => trivial

/-- An operator that is read makes a chain, to which the next operator may be added. -/
private theorem binaryStep_eq_some (hsub : SoundLevels S sub) {least : Nat} {left x : SourceTree}
    (hl : IsBinary S least left) (hspared : Spared (headKind ws) left)
    (h : (binaryStep sub least .nowhere left).outcome (reading ws) = some (some x, cursor)) :
    ∃ rest, cursor = reading rest ∧ rest.length < ws.length ∧ left.words ++ ws = x.words ++ rest ∧
      IsBinary S least x ∧ Spared (headKind rest) x := by
  simp only [binaryStep, outcome_bind, outcome_currentKind, Option.bind_some, outcome_ite] at h
  split at h
  next hc =>
    obtain ⟨hk, hp⟩ := (Bool.and_eq_true _ _).mp hc
    obtain ⟨vs, rfl⟩ := exists_keyword_of_headKind (beq_iff_eq.1 hk)
    simp only [outcome_advance, Option.bind_some] at h
    obtain ⟨⟨type, _⟩, ht, h1⟩ := Option.bind_eq_some_iff.1 h
    obtain ⟨rest, rfl, rfl, htype⟩ := sound_type false _ _ _ ht
    cases h1
    refine ⟨rest, rfl, by grind, ?_,
      .instanceof _ hl (of_decide_eq_true hp) hspared.admits_instanceof htype, trivial⟩
    simp [Tree.words]
  next =>
    split at h
    next operator ho =>
      obtain ⟨p, hk, hp⟩ := TokenKind.punctuator?_bind_eq_some.1 ho
      cases Punctuator.infixOperator?_eq_some.1 hp
      obtain ⟨vs, rfl⟩ := exists_punctuator_of_headKind hk
      rw [outcome_ite] at h
      split at h
      next => cases h
      next hle =>
        simp only [outcome_bind, outcome_advance, Option.bind_some] at h
        obtain ⟨⟨right, _⟩, hr, h1⟩ := Option.bind_eq_some_iff.1 h
        obtain ⟨rest, rfl, rfl, hright, hended⟩ := hsub _ _ _ _ hr
        cases h1
        refine ⟨rest, rfl, by grind, ?_,
          .infixed _ _ hl (Nat.not_lt.1 hle) hspared.admits_of_infixOperator hright, hended⟩
        simp [Tree.words]
    next => cases h

/-- Where a chain is not continued, the next token is no operator that binds as tightly. -/
private theorem binaryStep_eq_none {least : Nat} {left : SourceTree}
    (h : (binaryStep sub least .nowhere left).outcome (reading ws) = some (none, cursor)) :
    cursor = reading ws ∧ Ended (.binary least) (headKind ws) := by
  simp only [binaryStep, outcome_bind, outcome_currentKind, Option.bind_some, outcome_ite] at h
  split at h
  next =>
    obtain ⟨⟨_, _⟩, -, h1⟩ := Option.bind_eq_some_iff.1 h
    obtain ⟨⟨_, _⟩, -, h2⟩ := Option.bind_eq_some_iff.1 h1
    obtain ⟨⟨_, _⟩, -, h3⟩ := Option.bind_eq_some_iff.1 h2
    cases h3
  next hc =>
    have hinstanceof : headKind ws = .keyword .instanceofWord → instanceofPrecedence < least := by
      intro hk
      rw [hk] at hc
      simpa using hc
    split at h
    next operator ho =>
      obtain ⟨p, hk, hp⟩ := TokenKind.punctuator?_bind_eq_some.1 ho
      cases Punctuator.infixOperator?_eq_some.1 hp
      rw [outcome_ite] at h
      split at h
      next hlt =>
        cases h
        refine ⟨rfl, hinstanceof, fun op hop => ?_⟩
        cases InfixOperator.punctuator_inj (TokenKind.punctuator.inj (hk.symm.trans hop))
        exact hlt
      next =>
        obtain ⟨_, _, -, h1⟩ := outcome_bind_eq_some.1 h
        obtain ⟨_, _, -, h2⟩ := outcome_bind_eq_some.1 h1
        obtain ⟨_, _, -, h3⟩ := outcome_bind_eq_some.1 h2
        cases h3
    next hnone =>
      cases h
      refine ⟨rfl, hinstanceof, fun op hop => ?_⟩
      rw [hop] at hnone
      cases (Punctuator.infixOperator?_eq_some.2 rfl).symm.trans hnone

/-- Operands joined by infix operators that are read. -/
theorem sound_binary (hsub : SoundLevels S sub) (hS : Regular S) (least : Nat) :
    Sound (binary sub least) fun tree rest =>
      IsBinary S least tree ∧ Ended (.binary least) (headKind rest) := by
  intro ws tree cursor h
  simp only [binary, outcome_bind, outcome_currentSpan, Option.bind_some] at h
  obtain ⟨⟨first, _⟩, hf, h1⟩ := Option.bind_eq_some_iff.1 h
  obtain ⟨vs, rfl, rfl, hfirst⟩ := sound_unary hsub hS _ _ _ hf
  have hspared : Spared (headKind vs) first := by
    unfold Spared
    split
    next => exact absurd hfirst nofun
    next => trivial
  have hgrows : Grows (binaryStep sub least .nowhere) fun operand left =>
      IsBinary S least operand ∧ Spared (headKind left) operand := by
    rintro operand vs x cursor ⟨ho, hspared⟩ hs
    obtain ⟨left, rfl, hlt, hx, hbinary, hspared'⟩ := binaryStep_eq_some hsub ho hspared hs
    exact ⟨left, rfl, hlt, hx, hbinary, hspared'⟩
  obtain ⟨left, rfl, hw, ⟨hb, -⟩, hstop⟩ := hgrows.repeating
    (fun _ _ _ hs => (binaryStep_eq_none hs).1) ⟨.unary hfirst, hspared⟩ h1
  exact ⟨left, rfl, hw, hb, (binaryStep_eq_none hstop).2⟩

/-! ## Choices and assignments -/

/-- A choice that is read. -/
theorem sound_conditional (hsub : SoundLevels S sub) (hS : Regular S) :
    Sound (conditional sub) fun tree _ => IsConditional S tree := by
  intro ws tree cursor h
  simp only [conditional, outcome_bind, outcome_currentSpan, Option.bind_some] at h
  obtain ⟨⟨condition, _⟩, hc, h1⟩ := Option.bind_eq_some_iff.1 h
  obtain ⟨vs, rfl, rfl, hcondition, -⟩ := sound_binary hsub hS 1 _ _ _ hc
  obtain ⟨⟨taken, _⟩, he, h2⟩ := Option.bind_eq_some_iff.1 h1
  rcases eatPunctuator_eq_some he with ⟨rfl, us, rfl, rfl⟩ | ⟨rfl, -, rfl⟩
  · obtain ⟨thenExpression, _, ht, h3⟩ := outcome_bind_eq_some.1 h2
    obtain ⟨left, rfl, rfl, hthen, -⟩ := hsub .expression _ _ _ ht
    obtain ⟨_, _, hcolon, h4⟩ := outcome_bind_eq_some.1 h3
    obtain ⟨left', rfl, -, rfl⟩ := expectPunctuator_eq_some hcolon
    obtain ⟨elseExpression, _, he, h5⟩ := outcome_bind_eq_some.1 h4
    obtain ⟨rest, rfl, rfl, helse, -⟩ := hsub .conditional _ _ _ he
    cases h5
    refine ⟨rest, rfl, ?_, .choice _ hcondition hthen helse⟩
    simp [Tree.words]
  · cases h2
    exact ⟨vs, rfl, rfl, .binary hcondition⟩

/-- An assignment that is read. -/
theorem sound_assignment (hsub : SoundLevels S sub) (hS : Regular S) :
    Sound (assignment sub) fun tree _ => IsAssignment S tree := by
  intro ws tree cursor h
  simp only [assignment, outcome_bind, outcome_currentSpan, Option.bind_some] at h
  obtain ⟨⟨left, _⟩, hl, h1⟩ := Option.bind_eq_some_iff.1 h
  obtain ⟨vs, rfl, rfl, hleft⟩ := sound_conditional hsub hS _ _ _ hl
  simp only [outcome_currentKind, Option.bind_some] at h1
  split at h1
  next operator ho =>
    obtain ⟨p, hk, hp⟩ := TokenKind.punctuator?_bind_eq_some.1 ho
    cases Punctuator.assignmentOperator?_eq_some.1 hp
    obtain ⟨us, rfl⟩ := exists_punctuator_of_headKind hk
    simp only [outcome_bind, outcome_advance, Option.bind_some] at h1
    obtain ⟨⟨right, _⟩, hr, h2⟩ := Option.bind_eq_some_iff.1 h1
    obtain ⟨rest, rfl, rfl, hright, -⟩ := hsub .expression _ _ _ hr
    cases h2
    refine ⟨rest, rfl, ?_, .assignment _ _ hleft hright⟩
    simp [Tree.words]
  next =>
    cases h1
    exact ⟨vs, rfl, rfl, .conditional hleft⟩

/-! ## Every level -/

/-- The productions of every level give trees of their classes. -/
theorem soundLevels_level (depth : Nat) : SoundLevels (Fits depth) (level depth) := by
  induction depth with
  | zero =>
    intro lv ws tree cursor h
    cases h
  | succ depth ih =>
    have hS := regular_fits depth
    intro lv ws tree cursor h
    cases lv with
    | expression =>
      obtain ⟨rest, hc, hw, ht⟩ := sound_assignment ih hS ws tree cursor h
      exact ⟨rest, hc, hw, ht, trivial⟩
    | conditional =>
      obtain ⟨rest, hc, hw, ht⟩ := sound_conditional ih hS ws tree cursor h
      exact ⟨rest, hc, hw, ht, trivial⟩
    | binary least => exact sound_binary ih hS least ws tree cursor h
    | unary =>
      obtain ⟨rest, hc, hw, ht⟩ := sound_unary ih hS ws tree cursor h
      exact ⟨rest, hc, hw, ht, trivial⟩

/-- An expression that is read is an expression. -/
theorem sound_expression : Sound expression fun tree _ => IsExpression tree := by
  intro ws tree cursor h
  rw [expression, bounded, outcome_bind, outcome_place, Option.bind_some] at h
  obtain ⟨rest, hc, hw, ht, -⟩ := soundLevels_level _ .expression ws tree cursor h
  exact ⟨rest, hc, hw, _, ht⟩

end JavaFold.Grammar
