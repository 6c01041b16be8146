import JavaFold.Proofs.Grammar.Sound.Statement

/-!
# Declarations and source files that are read

What is read for a goal is what the goal describes (`production_gathers`).
-/

namespace JavaFold.Grammar

open Cursor

variable {V : Word → Prop} {S : SourceTree → Prop} {member : Parser Cursor SourceTree}
variable {ws rest : List Word} {cursor : Cursor} {tree : SourceTree}

/-! ## Methods -/

private theorem gathers_parameter (hV : Lexical V) :
    Gathers V parameter fun tree _ => IsParameter tree := by
  intro ws tree cursor hws h
  simp only [parameter, outcome_bind, outcome_currentSpan, Option.bind_some] at h
  obtain ⟨⟨modifiers, _⟩, hm, h1⟩ := Option.bind_eq_some_iff.1 h
  obtain ⟨vs, rfl, hle, hvs⟩ := modifiers_gathers hws hm
  obtain ⟨⟨type, _⟩, ht, h2⟩ := Option.bind_eq_some_iff.1 h1
  obtain ⟨us, rfl, hlt, hus, hwt, htype⟩ := gathers_type false _ _ _ hvs ht
  obtain ⟨⟨varargs, _⟩, he, h3⟩ := Option.bind_eq_some_iff.1 h2
  obtain ⟨left, rfl, hle', hleft⟩ := eatPunctuator_gathers hus he
  obtain ⟨⟨name, _⟩, hn, h4⟩ := Option.bind_eq_some_iff.1 h3
  obtain ⟨rest, rfl, hlt', hrest, hwn, hname⟩ := gathers_simpleName _ _ _ hleft hn
  cases h4
  refine ⟨rest, rfl, by omega, hrest, ?_, .intro _ _ _ htype hname⟩
  simp only [Tree.words, List.forall_mem_append]
  refine ⟨⟨⟨forall_mem_modifiers hV _, hwt⟩, ?_⟩, hwn⟩
  split
  · simpa using hV.punctuator _
  · nofun

/-- Parameters that are read are parameters. -/
private theorem parameters_gathers (hV : Lexical V) {parameters : List SourceTree}
    (hws : ∀ w ∈ ws, V w)
    (h : Grammar.parameters.outcome (reading ws) = some (parameters, cursor)) :
    ∃ rest, cursor = reading rest ∧ rest.length < ws.length ∧ (∀ w ∈ rest, V w) ∧
      ∀ p ∈ parameters, (∀ w ∈ p.words, V w) ∧ IsParameter p := by
  obtain ⟨_, _, hl, h1⟩ := outcome_bind_eq_some.1 h
  obtain ⟨vs, rfl, hlt, hvs, -⟩ := expectPunctuator_gathers hws hl
  obtain ⟨closed, _, hk, h2⟩ := outcome_bind_eq_some.1 h1
  cases (outcome_checkPunctuator .rparen vs).symm.trans hk
  dsimp only at h2
  rw [outcome_ite] at h2
  split at h2
  next =>
    obtain ⟨_, _, hf, h3⟩ := outcome_bind_eq_some.1 h2
    cases hf
    obtain ⟨_, _, hr, h4⟩ := outcome_bind_eq_some.1 h3
    obtain ⟨rest, rfl, hlt', hrest, -⟩ := expectPunctuator_gathers hvs hr
    cases h4
    exact ⟨rest, rfl, by omega, hrest, nofun⟩
  next =>
    obtain ⟨found, _, hf, h3⟩ := outcome_bind_eq_some.1 h2
    obtain ⟨left, rfl, hlt', hleft, -, hall⟩ :=
      commaSeparated_gathers (gathers_parameter hV) hvs hf
    obtain ⟨_, _, hr, h4⟩ := outcome_bind_eq_some.1 h3
    obtain ⟨rest, rfl, hlt'', hrest, -⟩ := expectPunctuator_gathers hleft hr
    cases h4
    exact ⟨rest, rfl, by omega, hrest, hall⟩

/-- What is read behind the name of a method makes it a method. -/
private theorem methodRest_gathers (hV : Lexical V) {modifiers : Modifiers} {constructor : Bool}
    {returnType name : SourceTree} (hws : ∀ w ∈ ws, V w)
    (hr : ∀ w ∈ returnType.words, V w) (hn : ∀ w ∈ name.words, V w)
    (h : (methodRest modifiers constructor returnType name .nowhere).outcome (reading ws) =
      some (tree, cursor)) :
    ∃ rest, cursor = reading rest ∧ rest.length < ws.length ∧ (∀ w ∈ rest, V w) ∧
      (∀ w ∈ tree.words, V w) ∧
      ∃ parameters body, tree =
          .node .nowhere (.methodDeclaration modifiers constructor returnType name parameters body) ∧
        (∀ p ∈ parameters, IsParameter p) ∧ IsOptional (IsBlock IsStatement) body := by
  obtain ⟨parameters, _, hp, h1⟩ := outcome_bind_eq_some.1 h
  obtain ⟨vs, rfl, hlt, hvs, hparameters⟩ := parameters_gathers hV hws hp
  have hwords (body : SourceTree) (hb : ∀ w ∈ body.words, V w) : ∀ w ∈ (Tree.node Span.nowhere
      (.methodDeclaration modifiers constructor returnType name parameters body)).words, V w := by
    simp only [Tree.words, List.forall_mem_append, List.forall_mem_cons]
    refine ⟨⟨⟨⟨forall_mem_modifiers hV _, hr⟩, hn⟩, hV.punctuator _,
      forall_mem_wordsRow hV _ fun p hp => (hparameters p hp).1⟩, hV.punctuator _, ?_⟩
    split
    · exact hb
    · simpa using hV.punctuator _
  obtain ⟨throws, _, hk, h2⟩ := outcome_bind_eq_some.1 h1
  cases hk
  rw [outcome_ite] at h2
  split at h2
  next => cases h2
  next =>
    obtain ⟨taken, _, he, h3⟩ := outcome_bind_eq_some.1 h2
    rcases eatPunctuator_eq_some he with ⟨rfl, rest, rfl, rfl⟩ | ⟨rfl, -, rfl⟩
    · cases h3
      simp only [List.length_cons] at hlt
      exact ⟨rest, rfl, by omega, fun w hw => hvs w (List.mem_cons_of_mem _ hw),
        hwords _ nofun, parameters, .absent, rfl, fun p hp => (hparameters p hp).2, .inl rfl⟩
    · obtain ⟨body, _, hb, h4⟩ := outcome_bind_eq_some.1 h3
      obtain ⟨rest, rfl, hlt', hrest, hwb, hbody⟩ :=
        gathers_block hV (gathersStatements_statement hV) _ _ _ hvs hb
      cases h4
      exact ⟨rest, rfl, by omega, hrest, hwords body hwb, parameters, body, rfl,
        fun p hp => (hparameters p hp).2, .inr hbody⟩

/-! ## Types -/

private theorem appends_memberStep (hm : Gathers V member fun tree _ => S tree) :
    Appends V (memberStep member) S := by
  intro found us x cursor hus hx
  simp only [memberStep, outcome_bind, outcome_checkPunctuator, outcome_check, Option.bind_some,
    outcome_ite, outcome_unexpected, outcome_pure] at hx
  split at hx
  next => cases hx
  next =>
    split at hx
    next => cases hx
    next =>
      obtain ⟨⟨taken, _⟩, he, hx⟩ := Option.bind_eq_some_iff.1 hx
      rcases eatPunctuator_eq_some he with ⟨rfl, left, rfl, rfl⟩ | ⟨rfl, -, rfl⟩
      · cases hx
        exact ⟨left, rfl, Nat.lt_succ_self _, fun w hw => hus w (List.mem_cons_of_mem _ hw),
          .inl rfl⟩
      · obtain ⟨⟨t, _⟩, ht, hx⟩ := Option.bind_eq_some_iff.1 hx
        obtain ⟨left, rfl, hlt, hleft, hwt, hSt⟩ := hm _ _ _ hus ht
        cases hx
        exact ⟨left, rfl, hlt, hleft, .inr ⟨t, rfl, hwt, hSt⟩⟩

private theorem memberStep_eq_none {found : List SourceTree}
    (h : (memberStep member found).outcome (reading ws) = some (none, cursor)) :
    cursor = reading ws := by
  simp only [memberStep, outcome_bind, outcome_checkPunctuator, outcome_check, Option.bind_some,
    outcome_ite, outcome_unexpected, outcome_pure] at h
  split at h
  next =>
    cases h
    rfl
  next =>
    split at h
    next => cases h
    next =>
      obtain ⟨⟨taken, _⟩, he, h⟩ := Option.bind_eq_some_iff.1 h
      rcases eatPunctuator_eq_some he with ⟨rfl, left, rfl, rfl⟩ | ⟨rfl, -, rfl⟩
      · cases h
      · obtain ⟨⟨t, _⟩, -, h⟩ := Option.bind_eq_some_iff.1 h
        cases h

/-- The members of a type that are read, stray semicolons being dropped. -/
theorem members_gathers (hm : Gathers V member fun tree _ => S tree) {members : List SourceTree}
    (hws : ∀ w ∈ ws, V w)
    (h : (repeating (memberStep member) []).outcome (reading ws) = some (members, cursor)) :
    ∃ rest, cursor = reading rest ∧ rest.length ≤ ws.length ∧ (∀ w ∈ rest, V w) ∧
      ∀ m ∈ members, (∀ w ∈ m.words, V w) ∧ S m :=
  (appends_memberStep hm).repeating (fun _ _ _ => memberStep_eq_none) hws h

/-- The body of a type that is read, given what is before it. -/
theorem typeBody_gathers (hV : Lexical V) (hm : Gathers V member fun tree _ => S tree)
    {modifiers : Modifiers} {interface : Bool} {name superclass : SourceTree}
    (hws : ∀ w ∈ ws, V w) (hn : IsSimpleName name) (hwn : ∀ w ∈ name.words, V w)
    (hs : IsOptional (IsType false) superclass) (hwsup : ∀ w ∈ superclass.words, V w)
    (h : (do
      if ← checkIdentifier "implements" then unsupported .implementsClause
      else
        let _ ← expectPunctuator .lbrace
        let members ← repeating (memberStep member) []
        let _ ← expectPunctuator .rbrace
        node .nowhere (.typeDeclaration modifiers interface name superclass members) :
        Parser Cursor SourceTree).outcome (reading ws) = some (tree, cursor)) :
    ∃ rest, cursor = reading rest ∧ rest.length < ws.length ∧ (∀ w ∈ rest, V w) ∧
      (∀ w ∈ tree.words, V w) ∧ IsTypeDeclarationOf S tree := by
  obtain ⟨implements, _, hk, h1⟩ := outcome_bind_eq_some.1 h
  cases hk
  rw [outcome_ite] at h1
  split at h1
  next => cases h1
  next =>
    obtain ⟨_, _, hl, h2⟩ := outcome_bind_eq_some.1 h1
    obtain ⟨vs, rfl, hlt, hvs, -⟩ := expectPunctuator_gathers hws hl
    obtain ⟨members, _, hmem, h3⟩ := outcome_bind_eq_some.1 h2
    obtain ⟨us, rfl, hle, hus, hmembers⟩ := members_gathers hm hvs hmem
    obtain ⟨_, _, hr, h4⟩ := outcome_bind_eq_some.1 h3
    obtain ⟨rest, rfl, hlt', hrest, -⟩ := expectPunctuator_gathers hus hr
    cases h4
    refine ⟨rest, rfl, by omega, hrest, ?_, .intro _ _ _ hn hs fun m hm => (hmembers m hm).2⟩
    simp only [Tree.words, List.forall_mem_append, List.forall_mem_cons]
    refine ⟨⟨⟨⟨forall_mem_modifiers hV _, ?_, hwn⟩, ?_⟩, hV.punctuator _,
      forall_mem_wordsRow hV _ fun m hm => (hmembers m hm).1⟩, hV.punctuator _, nofun⟩
    · cases interface <;> exact hV.keyword _
    · split
      · exact List.forall_mem_cons.2 ⟨hV.keyword _, hwsup⟩
      · nofun

/-- A class or an interface that is read. -/
theorem typeDeclaration_gathers (hV : Lexical V) (hm : Gathers V member fun tree _ => S tree)
    {modifiers : Modifiers} (hws : ∀ w ∈ ws, V w)
    (h : (typeDeclaration member modifiers .nowhere).outcome (reading ws) = some (tree, cursor)) :
    ∃ rest, cursor = reading rest ∧ rest.length < ws.length ∧ (∀ w ∈ rest, V w) ∧
      (∀ w ∈ tree.words, V w) ∧ IsTypeDeclarationOf S tree := by
  have hnamed (interface : Bool) (vs : List Word) (hvs : ∀ w ∈ vs, V w)
      (h : (do
        let name ← simpleName
        let superclass ← if ← eatKeyword .extendsWord then type false else pure .absent
        if ← checkIdentifier "implements" then unsupported .implementsClause
        else
          let _ ← expectPunctuator .lbrace
          let members ← repeating (memberStep member) []
          let _ ← expectPunctuator .rbrace
          node .nowhere (.typeDeclaration modifiers interface name superclass members) :
          Parser Cursor SourceTree).outcome (reading vs) = some (tree, cursor)) :
      ∃ rest, cursor = reading rest ∧ rest.length < vs.length ∧ (∀ w ∈ rest, V w) ∧
        (∀ w ∈ tree.words, V w) ∧ IsTypeDeclarationOf S tree := by
    obtain ⟨name, _, hn, h1⟩ := outcome_bind_eq_some.1 h
    obtain ⟨us, rfl, hlt, hus, hwn, hname⟩ := gathers_simpleName _ _ _ hvs hn
    obtain ⟨taken, _, he, h2⟩ := outcome_bind_eq_some.1 h1
    rcases eatKeyword_eq_some he with ⟨rfl, left, rfl, rfl⟩ | ⟨rfl, -, rfl⟩
    · obtain ⟨superclass, _, hs, h3⟩ := outcome_bind_eq_some.1 h2
      obtain ⟨left', rfl, hlt', hleft', hwsup, htype⟩ :=
        gathers_type false _ _ _ (fun w hw => hus w (List.mem_cons_of_mem _ hw)) hs
      obtain ⟨rest, rfl, hlt'', hrest⟩ := typeBody_gathers hV hm hleft' hname hwn
          (.inr htype) hwsup h3
      simp only [List.length_cons] at hlt
      exact ⟨rest, rfl, by omega, hrest⟩
    · obtain ⟨superclass, _, hs, h3⟩ := outcome_bind_eq_some.1 h2
      cases hs
      obtain ⟨rest, rfl, hlt'', hrest⟩ := typeBody_gathers hV hm hus hname hwn (.inl rfl) nofun h3
      exact ⟨rest, rfl, by omega, hrest⟩
  obtain ⟨interface, _, hi, h1⟩ := outcome_bind_eq_some.1 h
  obtain ⟨vs, rfl, hle, hvs⟩ := eatKeyword_gathers hws hi
  dsimp only at h1
  rw [outcome_ite] at h1
  split at h1
  next =>
    obtain ⟨_, _, hk, h2⟩ := outcome_bind_eq_some.1 h1
    obtain ⟨us, rfl, hlt, hus, -⟩ := expectKeyword_gathers hvs hk
    obtain ⟨rest, rfl, hlt', hrest⟩ := hnamed interface us hus h2
    exact ⟨rest, rfl, by omega, hrest⟩
  next =>
    obtain ⟨rest, rfl, hlt', hrest⟩ := hnamed interface vs hvs h1
    exact ⟨rest, rfl, by omega, hrest⟩

/-! ## Members -/

/-- A method or a field that is read. -/
theorem typedMember_gathers (hV : Lexical V) {modifiers : Modifiers} (hws : ∀ w ∈ ws, V w)
    (h : (typedMember modifiers .nowhere).outcome (reading ws) = some (tree, cursor)) :
    ∃ rest, cursor = reading rest ∧ rest.length < ws.length ∧ (∀ w ∈ rest, V w) ∧
      (∀ w ∈ tree.words, V w) ∧ IsMemberOf S tree := by
  obtain ⟨type, _, ht, h1⟩ := outcome_bind_eq_some.1 h
  obtain ⟨vs, rfl, hlt, hvs, hwt, htype⟩ := gathers_type true _ _ _ hws ht
  simp only [outcome_bind, outcome_kindAt, Option.bind_some, outcome_ite] at h1
  split at h1
  next =>
    obtain ⟨⟨name, _⟩, hn, h2⟩ := Option.bind_eq_some_iff.1 h1
    obtain ⟨us, rfl, hlt', hus, hwn, hname⟩ := gathers_simpleName _ _ _ hvs hn
    obtain ⟨rest, rfl, hlt'', hrest, hwords, parameters, body, rfl, hp, hb⟩ :=
      methodRest_gathers hV hus hwt hwn h2
    exact ⟨rest, rfl, by omega, hrest, hwords, .method _ _ htype hname hp hb⟩
  next =>
    obtain ⟨⟨fragments, _⟩, hf, h2⟩ := Option.bind_eq_some_iff.1 h1
    obtain ⟨us, rfl, hlt', hus, hne, hall⟩ := commaSeparated_gathers (gathers_fragment hV) hvs hf
    obtain ⟨⟨_, _⟩, hsemi, h3⟩ := Option.bind_eq_some_iff.1 h2
    obtain ⟨rest, rfl, hlt'', hrest, -⟩ := expectPunctuator_gathers hus hsemi
    cases h3
    refine ⟨rest, rfl, by omega, hrest, ?_, .field _ _ htype hne fun f hf => (hall f hf).2⟩
    simp only [Tree.words, List.forall_mem_append, List.forall_mem_singleton]
    exact ⟨⟨⟨forall_mem_modifiers hV _, hwt⟩,
      forall_mem_wordsRow hV _ fun f hf => (hall f hf).1⟩, hV.punctuator _⟩

/-- A member that is read. -/
theorem gathers_memberDeclaration (hV : Lexical V) (hm : Gathers V member fun tree _ => S tree) :
    Gathers V (memberDeclaration member) fun tree _ => IsMemberOf S tree := by
  intro ws tree cursor hws h
  simp only [memberDeclaration, outcome_bind, outcome_currentSpan, Option.bind_some] at h
  obtain ⟨⟨modifiers, _⟩, hmod, h1⟩ := Option.bind_eq_some_iff.1 h
  obtain ⟨vs, rfl, hle, hvs⟩ := modifiers_gathers hws hmod
  have htype (h : (typeDeclaration member modifiers .nowhere).outcome (reading vs) =
      some (tree, cursor)) : ∃ rest, cursor = reading rest ∧ rest.length < ws.length ∧
        (∀ w ∈ rest, V w) ∧ (∀ w ∈ tree.words, V w) ∧ IsMemberOf S tree := by
    obtain ⟨rest, rfl, hlt, hrest, hwords, htype⟩ := typeDeclaration_gathers hV hm hvs h
    exact ⟨rest, rfl, by omega, hrest, hwords, .type htype⟩
  simp only [outcome_currentKind, Option.bind_some] at h1
  split at h1
  next => exact htype h1
  next => exact htype h1
  next => cases h1
  next =>
    simp only [outcome_bind, outcome_kindAt, Option.bind_some, outcome_ite] at h1
    split at h1
    next =>
      obtain ⟨⟨name, _⟩, hn, h2⟩ := Option.bind_eq_some_iff.1 h1
      obtain ⟨us, rfl, hlt', hus, hwn, hname⟩ := gathers_simpleName _ _ _ hvs hn
      have habsent : ∀ w ∈ (.absent : SourceTree).words, V w := nofun
      obtain ⟨rest, rfl, hlt'', hrest, hwords, parameters, body, rfl, hp, hb⟩ :=
        methodRest_gathers hV hus habsent hwn h2
      exact ⟨rest, rfl, by omega, hrest, hwords, .constructor _ _ hname hp hb⟩
    next =>
      obtain ⟨rest, rfl, hlt, hrest, hmember⟩ := typedMember_gathers hV hvs h1
      exact ⟨rest, rfl, by omega, hrest, hmember⟩

private theorem gathers_member (hV : Lexical V) :
    Gathers V Grammar.member fun tree _ => IsMember tree := by
  have hdepth (depth : Nat) : Gathers V (memberUpTo depth) fun tree _ => MemberFits depth tree := by
    induction depth with
    | zero =>
      intro ws tree cursor hws h
      cases h
    | succ depth ih => exact gathers_memberDeclaration hV ih
  intro ws tree cursor hws h
  rw [Grammar.member, bounded, outcome_bind, outcome_place, Option.bind_some] at h
  obtain ⟨rest, hc, hlt, hrest, hwords, ht⟩ := hdepth _ ws tree cursor hws h
  exact ⟨rest, hc, hlt, hrest, hwords, _, ht⟩

/-! ## Source files -/

/-- An import that is read. -/
theorem gathers_importDeclaration (hV : Lexical V) :
    Gathers V importDeclaration fun tree _ => IsImport tree := by
  intro ws tree cursor hws h
  obtain ⟨token, _, hk, h1⟩ := outcome_bind_eq_some.1 h
  obtain ⟨vs, rfl, hlt, hvs, -⟩ := expectKeyword_gathers hws hk
  obtain ⟨isStatic, _, he, h2⟩ := outcome_bind_eq_some.1 h1
  obtain ⟨us, rfl, hle, hus⟩ := eatKeyword_gathers hvs he
  obtain ⟨name, _, hn, h3⟩ := outcome_bind_eq_some.1 h2
  obtain ⟨left, rfl, hlt', hleft, hwn, hname⟩ := gathers_name _ _ _ hus hn
  have hclose (onDemand : Bool) (vs : List Word) (hlt : vs.length < ws.length)
      (hvs : ∀ w ∈ vs, V w)
      (h : (do
        let _ ← expectPunctuator .semicolon
        node token.span (.importDeclaration isStatic onDemand name)).outcome (reading vs) =
          some (tree, cursor)) :
      ∃ rest, cursor = reading rest ∧ rest.length < ws.length ∧ (∀ w ∈ rest, V w) ∧
        (∀ w ∈ tree.words, V w) ∧ IsImport tree := by
    obtain ⟨_, _, hsemi, h1⟩ := outcome_bind_eq_some.1 h
    obtain ⟨rest, rfl, hlt', hrest, -⟩ := expectPunctuator_gathers hvs hsemi
    cases h1
    refine ⟨rest, rfl, by omega, hrest, ?_, .intro _ _ _ hname⟩
    simp only [Tree.words, List.forall_mem_append, List.forall_mem_cons]
    refine ⟨⟨⟨⟨hV.keyword _, ?_⟩, hwn⟩, ?_⟩, hV.punctuator _, nofun⟩
    · split
      · simpa using hV.keyword _
      · nofun
    · split
      · simpa using ⟨hV.punctuator _, hV.punctuator _⟩
      · nofun
  simp only [outcome_bind, outcome_checkPunctuator, outcome_kindAt, Option.bind_some,
    outcome_ite] at h3
  split at h3
  next hd =>
    simp only [Bool.and_eq_true, beq_iff_eq] at hd
    match left, hd with
    | w :: v :: left, _ =>
      simp only [outcome_advance, Option.bind_some] at h3
      simp only [List.length_cons] at hlt'
      exact hclose _ left (by omega)
        (fun w hw => hleft w (List.mem_cons_of_mem _ (List.mem_cons_of_mem _ hw)))
        ((outcome_bind _ _ _).trans h3)
  next => exact hclose _ left (by omega) hleft ((outcome_bind _ _ _).trans h3)

/-- The package of a source file that is read. -/
theorem package_gathers (hV : Lexical V) (hws : ∀ w ∈ ws, V w)
    (h : Grammar.package.outcome (reading ws) = some (tree, cursor)) :
    ∃ rest, cursor = reading rest ∧ (∀ w ∈ rest, V w) ∧ (∀ w ∈ tree.words, V w) ∧
      IsOptional IsPackage tree := by
  simp only [Grammar.package, outcome_bind, outcome_check, Option.bind_some, outcome_ite] at h
  split at h
  next hk =>
    obtain ⟨vs, rfl⟩ := exists_keyword_of_headKind (beq_iff_eq.1 hk)
    simp only [outcome_advance, Option.bind_some] at h
    obtain ⟨⟨name, _⟩, hn, h1⟩ := Option.bind_eq_some_iff.1 h
    obtain ⟨us, rfl, -, hus, hwn, hname⟩ :=
      gathers_name _ _ _ (fun w hw => hws w (List.mem_cons_of_mem _ hw)) hn
    obtain ⟨⟨_, _⟩, hsemi, h2⟩ := Option.bind_eq_some_iff.1 h1
    obtain ⟨rest, rfl, -, hrest, -⟩ := expectPunctuator_gathers hus hsemi
    cases h2
    refine ⟨rest, rfl, hrest, ?_, .inr (.intro _ hname)⟩
    simp only [Tree.words, List.forall_mem_append, List.forall_mem_cons]
    exact ⟨⟨hV.keyword _, hwn⟩, hV.punctuator _, nofun⟩
  next =>
    cases h
    exact ⟨ws, rfl, hws, nofun, .inl rfl⟩

private theorem appends_importStep (hV : Lexical V) : Appends V importStep IsImport := by
  intro found us x cursor hus hx
  simp only [importStep, outcome_bind, outcome_check, Option.bind_some, outcome_ite] at hx
  split at hx
  next =>
    obtain ⟨⟨t, _⟩, ht, hx⟩ := Option.bind_eq_some_iff.1 hx
    obtain ⟨left, rfl, hlt, hleft, hwt, himport⟩ := gathers_importDeclaration hV _ _ _ hus ht
    cases hx
    exact ⟨left, rfl, hlt, hleft, .inr ⟨t, rfl, hwt, himport⟩⟩
  next => cases hx

private theorem importStep_eq_none {found : List SourceTree}
    (h : (importStep found).outcome (reading ws) = some (none, cursor)) : cursor = reading ws := by
  simp only [importStep, outcome_bind, outcome_check, Option.bind_some, outcome_ite] at h
  split at h
  next =>
    obtain ⟨⟨t, _⟩, -, h⟩ := Option.bind_eq_some_iff.1 h
    cases h
  next =>
    cases h
    rfl

private theorem appends_typeStep (hV : Lexical V) :
    Appends V typeStep (IsTypeDeclarationOf IsMember) := by
  intro found us x cursor hus hx
  simp only [typeStep, outcome_bind, outcome_check, Option.bind_some, outcome_ite] at hx
  split at hx
  next => cases hx
  next =>
    obtain ⟨⟨taken, _⟩, he, hx⟩ := Option.bind_eq_some_iff.1 hx
    rcases eatPunctuator_eq_some he with ⟨rfl, left, rfl, rfl⟩ | ⟨rfl, -, rfl⟩
    · cases hx
      exact ⟨left, rfl, Nat.lt_succ_self _, fun w hw => hus w (List.mem_cons_of_mem _ hw), .inl rfl⟩
    · simp only [Bool.false_eq_true, if_false, outcome_currentSpan, Option.bind_some] at hx
      obtain ⟨⟨modifiers, _⟩, hm, hx⟩ := Option.bind_eq_some_iff.1 hx
      obtain ⟨vs, rfl, hle, hvs⟩ := modifiers_gathers hus hm
      obtain ⟨⟨t, _⟩, ht, hx⟩ := Option.bind_eq_some_iff.1 hx
      obtain ⟨left, rfl, hlt, hleft, hwt, htype⟩ :=
        typeDeclaration_gathers hV (gathers_member hV) hvs ht
      cases hx
      exact ⟨left, rfl, by omega, hleft, .inr ⟨t, rfl, hwt, htype⟩⟩

private theorem typeStep_eq_none {found : List SourceTree}
    (h : (typeStep found).outcome (reading ws) = some (none, cursor)) : cursor = reading ws := by
  simp only [typeStep, outcome_bind, outcome_check, Option.bind_some, outcome_ite] at h
  split at h
  next =>
    cases h
    rfl
  next =>
    obtain ⟨⟨taken, _⟩, he, h⟩ := Option.bind_eq_some_iff.1 h
    rcases eatPunctuator_eq_some he with ⟨rfl, left, rfl, rfl⟩ | ⟨rfl, -, rfl⟩
    · cases h
    · simp only [Bool.false_eq_true, if_false, outcome_currentSpan, Option.bind_some] at h
      obtain ⟨⟨_, _⟩, -, h⟩ := Option.bind_eq_some_iff.1 h
      obtain ⟨⟨_, _⟩, -, h⟩ := Option.bind_eq_some_iff.1 h
      cases h

/-- A source file that is read is a source file. -/
theorem compilationUnit_gathers (hV : Lexical V) (hws : ∀ w ∈ ws, V w)
    (h : compilationUnit.outcome (reading ws) = some (tree, cursor)) :
    ∃ rest, cursor = reading rest ∧ (∀ w ∈ tree.words, V w) ∧ IsUnit tree := by
  simp only [compilationUnit, outcome_bind, outcome_currentSpan, Option.bind_some] at h
  obtain ⟨⟨package, _⟩, hp, h1⟩ := Option.bind_eq_some_iff.1 h
  obtain ⟨vs, rfl, hvs, hwp, hpackage⟩ := package_gathers hV hws hp
  obtain ⟨⟨imports, _⟩, hi, h2⟩ := Option.bind_eq_some_iff.1 h1
  obtain ⟨us, rfl, -, hus, himports⟩ :=
    (appends_importStep hV).repeating (fun _ _ _ => importStep_eq_none) hvs hi
  obtain ⟨⟨types, _⟩, ht, h3⟩ := Option.bind_eq_some_iff.1 h2
  obtain ⟨rest, rfl, -, -, htypes⟩ :=
    (appends_typeStep hV).repeating (fun _ _ _ => typeStep_eq_none) hus ht
  cases h3
  refine ⟨rest, rfl, ?_, .intro _ hpackage (fun i hi => (himports i hi).2)
    fun t ht => (htypes t ht).2⟩
  simp only [Tree.words, List.forall_mem_append]
  exact ⟨⟨hwp, forall_mem_wordsRow hV _ fun i hi => (himports i hi).1⟩,
    forall_mem_wordsRow hV _ fun t ht => (htypes t ht).1⟩

/-- What is read for a goal is what the goal describes. -/
theorem production_gathers (hV : Lexical V) {goal : Goal} (hws : ∀ w ∈ ws, V w)
    (h : goal.production.outcome (reading ws) = some (tree, cursor)) :
    ∃ rest, cursor = reading rest ∧ (∀ w ∈ tree.words, V w) ∧ Describes goal tree := by
  cases goal with
  | compilationUnit => exact compilationUnit_gathers hV hws h
  | expression =>
    obtain ⟨rest, rfl, -, -, hwords, hexpr⟩ := gathers_expression _ _ _ hws h
    exact ⟨rest, rfl, hwords, hexpr⟩

end JavaFold.Grammar
