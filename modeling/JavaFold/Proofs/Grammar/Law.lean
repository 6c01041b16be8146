import JavaFold.Grammar

/-!
# What every production keeps to

A production moves the cursor by taking tokens one after the other, and is refused only where a
token is not expected or a construct is not covered. Whatever follows from that for all productions
is stated by a `Law`: how the cursor may move, and what a refusal may be. Main statement:
`obeys_production`.
-/

namespace JavaFold.Grammar

open Reading Builder

/-- How a production may move the cursor, and how it may be refused there. -/
structure Law (σ : Type) {τ : Type} [Reading σ] [Builder σ τ] where
  /-- The cursor may move from one state to another. -/
  Moves : Cursor → Cursor → Prop
  /-- A production may be refused in a state. -/
  Refuses : Cursor → ParseError → Prop
  /-- The cursor may stay. -/
  refl : ∀ c, Moves c c
  /-- Moves may follow each other. -/
  trans : ∀ {a b c}, Moves a b → Moves b c → Moves a c
  /-- A token may be taken. -/
  advance : ∀ c, Moves c c.advance
  /-- The next token may be unexpected. -/
  unexpected : ∀ c expected, Refuses c (.unexpectedToken expected c.current)
  /-- The construct that starts at the next token may not be covered. -/
  unsupported : ∀ c construct, Refuses c (.unsupported construct c.current)
  /-- A node may be refused. -/
  build : ∀ {span kind state error state'},
    (build span kind : Parser σ τ).run state = .error error state' → Refuses (cursor state') error

variable {σ τ α β : Type} [Reading σ] [Builder σ τ] {law : Law σ}

/-- A production moves the cursor and is refused as the law allows. -/
def Obeys (law : Law σ) (production : Parser σ α) : Prop :=
  ∀ state, match production.run state with
    | .ok _ state' => law.Moves (cursor state) (cursor state')
    | .error error state' =>
      law.Moves (cursor state) (cursor state') ∧ law.Refuses (cursor state') error

/-! ## Sequences -/

/-- A production that takes nothing stays, which every law allows. -/
theorem obeys_pure (a : α) : Obeys law (pure a) := fun state => law.refl (cursor state)

/-- Productions in sequence keep to the law: their moves follow each other, and a refusal of the
second is reached through the moves of the first. -/
theorem Obeys.bind {p : Parser σ α} {k : α → Parser σ β} (hp : Obeys law p)
    (hk : ∀ a, Obeys law (k a)) : Obeys law (p >>= k) := by
  intro c
  have hfirst := hp c
  rw [EStateM.run_bind]
  cases hr : p.run c with
  | error error middle =>
    rw [hr] at hfirst
    exact hfirst
  | ok a middle =>
    rw [hr] at hfirst
    have hsecond := hk a middle
    simp only
    cases hr' : (k a).run middle with
    | error error last =>
      rw [hr'] at hsecond
      exact ⟨law.trans hfirst hsecond.1, hsecond.2⟩
    | ok b last =>
      rw [hr'] at hsecond
      exact law.trans hfirst hsecond

/-- Whichever way a production branches, it keeps to the law if both branches do. -/
theorem Obeys.ite {P : Prop} [Decidable P] {p q : Parser σ α} (hp : Obeys law p)
    (hq : Obeys law q) : Obeys law (if P then p else q) := by
  split
  · exact hp
  · exact hq

private theorem obeys_place : Obeys law place := fun state => law.refl (cursor state)

/-! ## Single tokens -/

private theorem obeys_current : Obeys law current :=
  obeys_place.bind fun _ => obeys_pure _

/-- Reading the kind of the next token moves nothing. -/
theorem obeys_currentKind : Obeys law currentKind :=
  obeys_place.bind fun _ => obeys_pure _

/-- Reading the place of the next token moves nothing. -/
theorem obeys_currentSpan : Obeys law currentSpan :=
  obeys_place.bind fun _ => obeys_pure _

/-- Reading the kind of a token further ahead moves nothing. -/
theorem obeys_kindAt (n : Nat) : Obeys law (kindAt n) :=
  obeys_place.bind fun _ => obeys_pure _

/-- The move of taking one token is the one every law has to allow. -/
theorem obeys_advance : Obeys law advance := by
  intro state
  change law.Moves (cursor state) (cursor (move state (cursor state).advance))
  rw [cursor_move]
  exact law.advance _

/-- A refusal of the next token is one of the two that a production may give by itself. -/
theorem obeys_unexpected (expected : Expectation) :
    Obeys law (unexpected expected : Parser σ α) :=
  fun state => ⟨law.refl _, law.unexpected (cursor state) expected⟩

private theorem obeys_unsupported (construct : Construct) :
    Obeys law (unsupported construct : Parser σ α) :=
  fun state => ⟨law.refl _, law.unsupported (cursor state) construct⟩

/-- A node is made without a move; a refusal is the builder's, and a law says which of these there
are. -/
theorem obeys_build (span : Span) (kind : NodeKind String τ) :
    Obeys law (build span kind : Parser σ τ) := by
  intro state
  have hstays := cursor_build span kind state
  cases hr : (build span kind : Parser σ τ).run state with
  | ok top state' =>
    rw [hr] at hstays
    exact hstays ▸ law.refl _
  | error error state' =>
    rw [hr] at hstays
    exact ⟨hstays.1 ▸ law.refl _, law.build hr⟩

/-- A node that ends before the next token is a node made of a known place. -/
theorem obeys_node (start : Span) (kind : NodeKind String τ) :
    Obeys law (node start kind) :=
  obeys_place.bind fun _ => obeys_build _ kind

/-- A question about the next token is answered without a move. -/
theorem obeys_check (kind : TokenKind) : Obeys law (check kind) :=
  obeys_currentKind.bind fun _ => obeys_pure _

/-- A question for a punctuator is a question about the next token. -/
theorem obeys_checkPunctuator (p : Punctuator) : Obeys law (checkPunctuator p) :=
  obeys_check _

private theorem obeys_eat (kind : TokenKind) : Obeys law (eat kind) :=
  (obeys_check kind).bind fun _ =>
    .ite (obeys_advance.bind fun _ => obeys_pure _) (obeys_pure _)

/-- A punctuator is taken where it stands, and nothing moves elsewhere. -/
theorem obeys_eatPunctuator (p : Punctuator) : Obeys law (eatPunctuator p) :=
  obeys_eat _

/-- A keyword is taken where it stands, and nothing moves elsewhere. -/
theorem obeys_eatKeyword (k : Keyword) : Obeys law (eatKeyword k) :=
  obeys_eat _

private theorem obeys_expect (kind : TokenKind) (expected : Expectation) :
    Obeys law (expect kind expected) :=
  (obeys_check kind).bind fun _ => .ite obeys_advance (obeys_unexpected _)

/-- A punctuator is taken, or the token in its place is refused. -/
theorem obeys_expectPunctuator (p : Punctuator) : Obeys law (expectPunctuator p) :=
  obeys_expect _ _

/-- A keyword is taken, or the token in its place is refused. -/
theorem obeys_expectKeyword (k : Keyword) : Obeys law (expectKeyword k) :=
  obeys_expect _ _

/-! ## Repetition -/

omit [Reading σ] in
/-- A loop takes its turns one after the other. -/
theorem run_iterate_succ (step : α → Parser σ (Option α)) (turns : Nat) (a : α) (state : σ) :
    (iterate step (turns + 1) a).run state = match (step a).run state with
      | .ok (some next) state' => (iterate step turns next).run state'
      | .ok none state' => .ok a state'
      | .error error state' => .error error state' := by
  rw [iterate, EStateM.run_bind]
  cases (step a).run state with
  | error error state' => rfl
  | ok next state' => cases next <;> rfl

private theorem obeys_iterate {step : α → Parser σ (Option α)} (h : ∀ a, Obeys law (step a))
    (turns : Nat)
    (a : α) : Obeys law (iterate step turns a) := by
  induction turns generalizing a with
  | zero => exact obeys_pure a
  | succ turns ih =>
    refine (h a).bind fun next => ?_
    cases next with
    | none => exact obeys_pure a
    | some next => exact ih next

/-- What is seen ahead is given back with the cursor where it was. -/
theorem run_lookingAhead (look : Parser σ α) (state : σ) :
    (lookingAhead look).run state = match look.run state with
      | .ok seen state' => .ok seen (move state' (cursor state))
      | .error error state' => .error error state' := by
  have hrun : (lookingAhead look).run state =
      (look >>= fun seen => goTo (cursor state) >>= fun _ => pure seen).run state := rfl
  rw [hrun, EStateM.run_bind]
  cases look.run state <;> rfl

/-- What is read ahead is taken back, so nothing moves unless it is refused. -/
private theorem obeys_lookingAhead {look : Parser σ α} (h : Obeys law look) :
    Obeys law (lookingAhead look) := by
  intro state
  have hlook := h state
  rw [run_lookingAhead]
  cases hr : look.run state with
  | ok seen state' =>
    simp only [cursor_move]
    exact law.refl _
  | error error state' =>
    rw [hr] at hlook
    exact hlook

/-- A production with a bound on its depth or turns keeps to the law if it does at every bound. -/
theorem obeys_bounded {p : Nat → Parser σ α} (h : ∀ depth, Obeys law (p depth)) :
    Obeys law (bounded p) :=
  obeys_place.bind fun _ => h _

/-- A loop keeps to the law if a turn of it does. -/
theorem obeys_repeating {step : α → Parser σ (Option α)} (h : ∀ a, Obeys law (step a)) (a : α) :
    Obeys law (repeating step a) :=
  obeys_bounded fun turns => obeys_iterate h turns a

private theorem obeys_commaSeparated {item : Parser σ τ} (h : Obeys law item) :
    Obeys law (commaSeparated item) :=
  h.bind fun first => obeys_repeating (fun _ => (obeys_eatPunctuator .comma).bind fun _ =>
    .ite (h.bind fun _ => obeys_pure _) (obeys_pure _)) [first]

/-! ## Names, modifiers and types -/

private theorem obeys_expectIdentifier : Obeys law expectIdentifier :=
  obeys_expect _ _

/-- A name of one word is an identifier taken and a node made of it. -/
theorem obeys_simpleName : Obeys law simpleName :=
  obeys_expectIdentifier.bind fun _ => obeys_build _ _

private theorem obeys_qualifiedStep (start : Span) (name : τ) :
    Obeys law (qualifiedStep start name) :=
  (obeys_checkPunctuator .dot).bind fun _ => (obeys_kindAt 1).bind fun _ =>
    .ite (obeys_advance.bind fun _ => obeys_simpleName.bind fun _ =>
      (obeys_node start _).bind fun _ => obeys_pure _) (obeys_pure _)

/-- The first word of a name is read before the turns that add one word each. -/
theorem obeys_name : Obeys law name :=
  obeys_currentSpan.bind fun start => obeys_simpleName.bind fun first =>
    obeys_repeating (obeys_qualifiedStep start) first

private theorem obeys_modifierStep (modifiers : Modifiers) : Obeys law
    (modifierStep modifiers) := by
  refine obeys_currentKind.bind fun kind => ?_
  split
  · exact obeys_advance.bind fun _ => obeys_pure _
  · exact obeys_pure _

/-- Every turn over the modifiers takes one keyword or ends. -/
theorem obeys_modifiers : Obeys law modifiers :=
  obeys_repeating obeys_modifierStep _

private theorem obeys_dimensionStep (start : Span) (component : τ) :
    Obeys law (dimensionStep start component) :=
  (obeys_checkPunctuator .lbracket).bind fun _ => (obeys_kindAt 1).bind fun _ =>
    .ite (obeys_advance.bind fun _ => obeys_advance.bind fun _ =>
      (obeys_node start _).bind fun _ => obeys_pure _) (obeys_pure _)

/-- Every turn over the pairs of brackets behind a type takes one pair or ends. -/
theorem obeys_dimensions (start : Span) (component : τ) :
    Obeys law (dimensions start component) :=
  obeys_repeating (obeys_dimensionStep start) component

private theorem obeys_primitiveType (primitive : PrimitiveType) : Obeys law
    (primitiveType primitive) :=
  obeys_advance.bind fun _ => obeys_build _ _

/-- A type is a primitive one or a name, each with its pairs of brackets. -/
theorem obeys_type (allowVoid : Bool) : Obeys law (type allowVoid) := by
  refine obeys_currentSpan.bind fun start => obeys_currentKind.bind fun kind => ?_
  split
  · exact .ite (obeys_unexpected _) ((obeys_primitiveType _).bind fun _ => obeys_dimensions start _)
  · exact obeys_name.bind fun _ => (obeys_node start _).bind fun _ => obeys_dimensions start _
  · exact obeys_unexpected _

/-! ## Lookahead -/

private theorem obeys_scanQualifier (u : Unit) : Obeys law (scanQualifier u) :=
  (obeys_checkPunctuator .dot).bind fun _ => (obeys_kindAt 1).bind fun _ =>
    .ite (obeys_advance.bind fun _ => obeys_advance.bind fun _ => obeys_pure _) (obeys_pure _)

private theorem obeys_scanDimension (u : Unit) : Obeys law (scanDimension u) :=
  (obeys_checkPunctuator .lbracket).bind fun _ => (obeys_kindAt 1).bind fun _ =>
    .ite (obeys_advance.bind fun _ => obeys_advance.bind fun _ => obeys_pure _) (obeys_pure _)

private theorem obeys_scanElement : Obeys law scanElement := by
  refine obeys_currentKind.bind fun kind => ?_
  split
  · exact .ite (obeys_pure _) (obeys_advance.bind fun _ => obeys_pure _)
  · exact obeys_advance.bind fun _ => (obeys_repeating obeys_scanQualifier ()).bind fun _ =>
      obeys_pure _
  · exact obeys_pure _

/-- The reading ahead over a type takes tokens as the production of a type does. -/
theorem obeys_scanType : Obeys law scanType :=
  obeys_scanElement.bind fun _ => .ite
    ((obeys_repeating obeys_scanDimension ()).bind fun _ => obeys_pure _) (obeys_pure _)

/-- The reading ahead over a declaration is taken back whole, and stays. -/
theorem obeys_atDeclaration : Obeys law atDeclaration :=
  obeys_lookingAhead <| obeys_modifiers.bind fun _ => obeys_scanType.bind fun _ =>
    .ite (obeys_check .identifier) (obeys_pure _)

private theorem obeys_atCast : Obeys law atCast :=
  obeys_lookingAhead <| obeys_advance.bind fun _ => obeys_currentKind.bind fun _ =>
    obeys_scanType.bind fun _ => .ite ((obeys_eatPunctuator .rparen).bind fun _ =>
      .ite (obeys_currentKind.bind fun _ => obeys_pure _) (obeys_pure _)) (obeys_pure _)

/-! ## Expressions -/

section Expressions

variable {sub : Level → Parser σ τ} (hsub : ∀ l, Obeys law (sub l))

include hsub

private theorem obeys_arguments : Obeys law (arguments sub) := by
  refine (obeys_expectPunctuator .lparen).bind fun _ => (obeys_checkPunctuator .rparen).bind
      fun _ =>
    .ite ?_ ((obeys_commaSeparated (hsub .expression)).bind fun _ => ?_)
  all_goals exact (obeys_expectPunctuator .rparen).bind fun _ => obeys_pure _

omit hsub in
/-- A point and `class` behind a type that is already read. -/
theorem obeys_typeLiteral (start : Span) (type : τ) : Obeys law (typeLiteral start type) :=
  (obeys_expectPunctuator .dot).bind fun _ => (obeys_expectKeyword .classWord).bind fun _ =>
    obeys_node start _

omit hsub in
/-- A word is added to a name that is read as an operand unless it is called. -/
theorem obeys_qualifiedOperandStep (start : Span) (name : τ) :
    Obeys law (qualifiedOperandStep start name) :=
  (obeys_kindAt 2).bind fun _ => .ite (obeys_pure _) (obeys_qualifiedStep start name)

private theorem obeys_nameOperand : Obeys law (nameOperand sub) := by
  refine obeys_currentSpan.bind fun start => obeys_simpleName.bind fun first =>
    (obeys_checkPunctuator .lparen).bind fun _ => .ite ?call ?name
  case call => exact (obeys_arguments hsub).bind fun _ => obeys_node start _
  case name =>
    refine (obeys_repeating (obeys_qualifiedOperandStep start) first).bind fun name =>
      (obeys_checkPunctuator .dot).bind fun _ => (obeys_kindAt 1).bind fun _ =>
        .ite ((obeys_node start _).bind fun _ => obeys_typeLiteral start _) ?_
    refine (obeys_checkPunctuator .lbracket).bind fun _ => (obeys_kindAt 1).bind fun _ =>
      .ite ?_ (obeys_pure _)
    exact (obeys_node start _).bind fun _ => (obeys_dimensions start _).bind fun _ =>
      obeys_typeLiteral start _

private theorem obeys_instanceCreation : Obeys law (instanceCreation sub) := by
  refine (obeys_expectKeyword .newWord).bind fun token => (obeys_check .identifier).bind fun _ =>
    .ite (obeys_unsupported _) ?_
  refine obeys_currentSpan.bind fun start => obeys_name.bind fun _ => (obeys_node start _).bind
      fun _ =>
    (obeys_checkPunctuator .lbracket).bind fun _ => .ite (obeys_unsupported _) ?_
  exact (obeys_arguments hsub).bind fun _ => (obeys_checkPunctuator .lbrace).bind fun _ =>
    .ite (obeys_unsupported _) (obeys_node token.span _)

omit hsub in
private theorem obeys_leaf (kind : NodeKind String τ) : Obeys law (leaf kind) :=
  obeys_advance.bind fun _ => obeys_build _ kind

/-- An operand keeps to the law as the expressions inside do: one case for each token that starts
one. -/
private theorem obeys_primary : Obeys law (primary sub) := by
  refine obeys_current.bind fun token => ?_
  split
  any_goals exact obeys_leaf _
  · exact obeys_instanceCreation hsub
  · exact (obeys_primitiveType _).bind fun _ => (obeys_dimensions token.span _).bind fun _ =>
      obeys_typeLiteral token.span _
  · exact obeys_advance.bind fun _ => (hsub .expression).bind fun _ =>
      (obeys_expectPunctuator .rparen).bind fun _ => obeys_node token.span _
  · exact obeys_nameOperand hsub
  · exact obeys_unexpected _

private theorem obeys_selectorStep (start : Span) (operand : τ) :
    Obeys law (selectorStep sub start operand) := by
  refine (obeys_eatPunctuator .dot).bind fun _ => .ite ?member ?_
  case member =>
    exact obeys_simpleName.bind fun _ => (obeys_checkPunctuator .lparen).bind fun _ => .ite
      ((obeys_arguments hsub).bind fun _ => (obeys_node start _).bind fun _ => obeys_pure _)
      ((obeys_node start _).bind fun _ => obeys_pure _)
  refine (obeys_eatPunctuator .lbracket).bind fun _ => .ite ?_ (obeys_pure _)
  exact (hsub .expression).bind fun _ => (obeys_expectPunctuator .rbracket).bind fun _ =>
    (obeys_node start _).bind fun _ => obeys_pure _

omit hsub in
private theorem obeys_postfixStep (start : Span) (operand : τ) :
    Obeys law (postfixStep start operand) := by
  refine obeys_currentKind.bind fun kind => ?_
  split
  · exact obeys_advance.bind fun _ => (obeys_node start _).bind fun _ => obeys_pure _
  · exact obeys_pure _

/-- An operand with its selectors and its postfix operators, given the law for the phrases inside.
-/
theorem obeys_postfixed : Obeys law (postfixed sub) :=
  obeys_currentSpan.bind fun start => (obeys_primary hsub).bind fun operand =>
    (obeys_repeating (obeys_selectorStep hsub start) operand).bind fun selected =>
      obeys_repeating (obeys_postfixStep start) selected

/-- A cast takes its parentheses only after reading ahead, which moves nothing. -/
private theorem obeys_unary : Obeys law (unary sub) := by
  refine obeys_currentSpan.bind fun start => obeys_currentKind.bind fun kind => ?_
  split
  · exact obeys_advance.bind fun _ => (hsub .unary).bind fun _ => obeys_node start _
  · refine (obeys_checkPunctuator .lparen).bind fun _ => obeys_atCast.bind fun _ =>
      .ite ?_ (obeys_postfixed hsub)
    exact obeys_advance.bind fun _ => (obeys_type false).bind fun _ =>
      (obeys_expectPunctuator .rparen).bind fun _ => (hsub .unary).bind fun _ => obeys_node start _

private theorem obeys_binaryStep (least : Nat) (start : Span) (left : τ) :
    Obeys law (binaryStep sub least start left) := by
  refine obeys_currentKind.bind fun kind => ?_
  refine .ite ?_ ?_
  · exact obeys_advance.bind fun _ => (obeys_type false).bind fun _ => (obeys_node start _).bind
      fun _ =>
      obeys_pure _
  split
  · split
    · exact obeys_pure _
    · exact obeys_advance.bind fun _ => (hsub _).bind fun _ => (obeys_node start _).bind fun _ =>
        obeys_pure _
  · exact obeys_pure _

private theorem obeys_binary (least : Nat) : Obeys law (binary sub least) :=
  obeys_currentSpan.bind fun start => (obeys_unary hsub).bind fun operand =>
    obeys_repeating (obeys_binaryStep hsub least start) operand

private theorem obeys_conditional : Obeys law (conditional sub) := by
  refine obeys_currentSpan.bind fun start => (obeys_binary hsub 1).bind fun condition =>
    (obeys_eatPunctuator .question).bind fun _ => .ite ?_ (obeys_pure _)
  exact (hsub .expression).bind fun _ => (obeys_expectPunctuator .colon).bind fun _ =>
    (hsub .conditional).bind fun _ => obeys_node start _

private theorem obeys_assignment : Obeys law (assignment sub) := by
  refine obeys_currentSpan.bind fun start => (obeys_conditional hsub).bind fun left =>
    obeys_currentKind.bind fun kind => ?_
  split
  · exact obeys_advance.bind fun _ => (hsub .expression).bind fun _ => obeys_node start _
  · exact obeys_pure left

end Expressions

/-- Every class of expressions keeps to the law at every depth. At depth zero the token is refused.
-/
theorem obeys_level (depth : Nat) (l : Level) : Obeys law (level depth l) := by
  induction depth generalizing l with
  | zero => exact obeys_unexpected _
  | succ depth ih =>
    cases l with
    | expression => exact obeys_assignment ih
    | conditional => exact obeys_conditional ih
    | binary least => exact obeys_binary ih least
    | unary => exact obeys_unary ih

/-- An expression is its widest class, to the depth the tokens leave. -/
theorem obeys_expression : Obeys law expression :=
  obeys_bounded fun depth => obeys_level depth .expression

/-! ## Statements -/

/-- The value behind an equals sign is an expression; one in braces is not covered. -/
theorem obeys_initializer : Obeys law initializer :=
  (obeys_eatPunctuator .eq).bind fun _ => .ite
    ((obeys_checkPunctuator .lbrace).bind fun _ => .ite (obeys_unsupported _) obeys_expression)
    (obeys_pure _)

private theorem obeys_fragment : Obeys law fragment :=
  obeys_currentSpan.bind fun start => obeys_simpleName.bind fun _ => obeys_initializer.bind fun _ =>
    obeys_node start _

/-- The variables of one declaration stand one after the other, with commas between them. -/
theorem obeys_fragments : Obeys law fragments :=
  obeys_commaSeparated obeys_fragment

private theorem obeys_localDeclaration : Obeys law localDeclaration :=
  obeys_currentSpan.bind fun start => obeys_modifiers.bind fun _ => (obeys_type false).bind fun _ =>
    obeys_fragments.bind fun _ => obeys_node start _

/-- A condition is an expression in parentheses. -/
theorem obeys_condition : Obeys law condition :=
  (obeys_expectPunctuator .lparen).bind fun _ => obeys_expression.bind fun _ =>
    (obeys_expectPunctuator .rparen).bind fun _ => obeys_pure _

/-- The head of a loop starts with nothing, with one declaration or with expressions. -/
theorem obeys_forInitializers : Obeys law forInitializers := by
  refine obeys_atDeclaration.bind fun _ => .ite ?declaration ?_
  case declaration =>
    exact obeys_localDeclaration.bind fun _ => (obeys_checkPunctuator .colon).bind fun _ =>
      .ite (obeys_unsupported _) (obeys_pure _)
  exact (obeys_checkPunctuator .semicolon).bind fun _ =>
    .ite (obeys_pure _) (obeys_commaSeparated obeys_expression)

/-- An expression that may be missing is missing where the closing token stands. -/
theorem obeys_optionalExpression (stop : Punctuator) : Obeys law (optionalExpression stop) :=
  (obeys_checkPunctuator stop).bind fun _ => .ite (obeys_pure _) obeys_expression

/-- A list of expressions that may be empty is empty where the closing token stands. -/
theorem obeys_optionalExpressions (stop : Punctuator) : Obeys law (optionalExpressions stop) :=
  (obeys_checkPunctuator stop).bind fun _ =>
    .ite (obeys_pure _) (obeys_commaSeparated obeys_expression)

private theorem obeys_returnStatement : Obeys law returnStatement :=
  (obeys_expectKeyword .returnWord).bind fun token => (obeys_optionalExpression .semicolon).bind
      fun _ =>
    (obeys_expectPunctuator .semicolon).bind fun _ => obeys_node token.span _

private theorem obeys_throwStatement : Obeys law throwStatement :=
  (obeys_expectKeyword .throwWord).bind fun token => obeys_expression.bind fun _ =>
    (obeys_expectPunctuator .semicolon).bind fun _ => obeys_node token.span _

private theorem obeys_keywordStatement (keyword : Keyword) (kind : NodeKind String τ) :
    Obeys law (keywordStatement keyword kind) :=
  (obeys_expectKeyword keyword).bind fun token => (obeys_expectPunctuator .semicolon).bind fun _ =>
    obeys_node token.span _

private theorem obeys_plainStatement : Obeys law plainStatement := by
  refine obeys_currentSpan.bind fun start => obeys_atDeclaration.bind fun _ => .ite ?_ ?_
  · exact obeys_localDeclaration.bind fun _ => (obeys_expectPunctuator .semicolon).bind fun _ =>
      obeys_pure _
  · exact obeys_expression.bind fun _ => (obeys_expectPunctuator .semicolon).bind fun _ =>
      obeys_node start _

section Statements

variable {statement : Parser σ τ} (h : Obeys law statement)

include h

private theorem obeys_blockStep (statements : List τ) :
    Obeys law (blockStep statement statements) := by
  refine (obeys_checkPunctuator .rbrace).bind fun _ => .ite (obeys_pure _) ?_
  exact (obeys_check .endOfFile).bind fun _ => .ite (obeys_unexpected _)
    (h.bind fun tree => obeys_pure _)

/-- The turns over a block read one statement each, to the closing brace. -/
theorem obeys_block : Obeys law (block statement) :=
  (obeys_expectPunctuator .lbrace).bind fun token =>
    (obeys_repeating (obeys_blockStep h) []).bind fun _ =>
      (obeys_expectPunctuator .rbrace).bind fun _ => obeys_node token.span _

private theorem obeys_forStatement : Obeys law (forStatement statement) := by
  refine (obeys_expectKeyword .forWord).bind fun token => (obeys_expectPunctuator .lparen).bind
      fun _ =>
    obeys_forInitializers.bind fun _ => (obeys_expectPunctuator .semicolon).bind fun _ => ?_
  refine (obeys_optionalExpression .semicolon).bind fun _ =>
    (obeys_expectPunctuator .semicolon).bind fun _ => (obeys_optionalExpressions .rparen).bind
        fun _ => ?_
  exact (obeys_expectPunctuator .rparen).bind fun _ => h.bind fun _ => obeys_node token.span _

private theorem obeys_ifStatement : Obeys law (ifStatement statement) := by
  refine (obeys_expectKeyword .ifWord).bind fun token => obeys_condition.bind fun _ => h.bind
      fun _ =>
    (obeys_eatKeyword .elseWord).bind fun _ => .ite ?_ ?_
  · exact h.bind fun _ => obeys_node token.span _
  · exact (obeys_pure _).bind fun _ => obeys_node token.span _

private theorem obeys_whileStatement : Obeys law (whileStatement statement) :=
  (obeys_expectKeyword .whileWord).bind fun token => obeys_condition.bind fun _ => h.bind fun _ =>
    obeys_node token.span _

private theorem obeys_doStatement : Obeys law (doStatement statement) :=
  (obeys_expectKeyword .doWord).bind fun token => h.bind fun _ =>
    (obeys_expectKeyword .whileWord).bind fun _ => obeys_condition.bind fun _ =>
      (obeys_expectPunctuator .semicolon).bind fun _ => obeys_node token.span _

/-- A statement keeps to the law as the statements inside do: one case for each keyword. -/
private theorem obeys_statementStep : Obeys law (statementStep statement) := by
  refine obeys_currentKind.bind fun kind => ?_
  split
  · exact obeys_block h
  · exact obeys_leaf _
  · exact obeys_ifStatement h
  · exact obeys_whileStatement h
  · exact obeys_doStatement h
  · exact obeys_forStatement h
  · exact obeys_returnStatement
  · exact obeys_keywordStatement _ _
  · exact obeys_keywordStatement _ _
  · exact obeys_throwStatement
  · exact obeys_unsupported _
  · exact obeys_unsupported _
  · exact obeys_plainStatement

end Statements

/-- Every statement keeps to the law at every depth, as the statements inside are one level deeper.
-/
theorem obeys_statementUpTo (depth : Nat) : Obeys law (statementUpTo depth) := by
  induction depth with
  | zero => exact obeys_unexpected _
  | succ depth ih => exact obeys_statementStep ih

/-- A statement is read to the depth the tokens leave. -/
theorem obeys_statement : Obeys law statement :=
  obeys_bounded obeys_statementUpTo

/-! ## Declarations -/

/-- A parameter is its modifiers, its type and its name. -/
theorem obeys_parameter : Obeys law parameter :=
  obeys_currentSpan.bind fun start => obeys_modifiers.bind fun _ => (obeys_type false).bind fun _ =>
    (obeys_eatPunctuator .ellipsis).bind fun _ => obeys_simpleName.bind fun _ => obeys_node start _

private theorem obeys_parameters : Obeys law parameters := by
  refine (obeys_expectPunctuator .lparen).bind fun _ => (obeys_checkPunctuator .rparen).bind
      fun _ =>
    .ite ?_ ((obeys_commaSeparated obeys_parameter).bind fun _ => ?_)
  all_goals exact (obeys_expectPunctuator .rparen).bind fun _ => obeys_pure _

/-- A question for one spelling of an identifier is answered without a move. -/
theorem obeys_checkIdentifier (text : String) : Obeys law (checkIdentifier text) :=
  obeys_current.bind fun _ => obeys_pure _

/-- Behind the name of a method or constructor stand its parameters and its body or a semicolon. -/
theorem obeys_methodRest (modifiers : Modifiers) (constructor : Bool) (returnType name : τ)
    (start : Span) :
    Obeys law (methodRest modifiers constructor returnType name start) := by
  refine obeys_parameters.bind fun _ => (obeys_checkIdentifier "throws").bind fun _ =>
    .ite (obeys_unsupported _) ((obeys_eatPunctuator .semicolon).bind fun _ => .ite ?_ ?_)
  · exact (obeys_pure _).bind fun _ => obeys_node start _
  · exact (obeys_block obeys_statement).bind fun _ => obeys_node start _

section Members

variable {member : Parser σ τ} (h : Obeys law member)

include h

private theorem obeys_memberStep (members : List τ) : Obeys law (memberStep member members) := by
  refine (obeys_checkPunctuator .rbrace).bind fun _ => .ite (obeys_pure _) ?_
  refine (obeys_check .endOfFile).bind fun _ => .ite (obeys_unexpected _) ?_
  exact (obeys_eatPunctuator .semicolon).bind fun _ => .ite (obeys_pure _)
    (h.bind fun tree => obeys_pure _)

/-- A class or interface keeps to the law as its members do. -/
theorem obeys_typeDeclaration (modifiers : Modifiers) (start : Span) :
    Obeys law (typeDeclaration member modifiers start) := by
  refine (obeys_eatKeyword .interfaceWord).bind fun interface =>
    .ite ((obeys_expectKeyword .classWord).bind fun _ => ?_) ?_
  all_goals
    refine obeys_simpleName.bind fun name => (obeys_eatKeyword .extendsWord).bind fun _ =>
      .ite ((obeys_type false).bind fun superclass => ?_)
        ((obeys_pure _).bind fun superclass => ?_)
  all_goals
    refine (obeys_checkIdentifier "implements").bind fun _ => .ite (obeys_unsupported _) ?_
    exact (obeys_expectPunctuator .lbrace).bind fun _ =>
      (obeys_repeating (obeys_memberStep h) []).bind fun _ =>
        (obeys_expectPunctuator .rbrace).bind fun _ => obeys_node start _

omit h in
private theorem obeys_typedMember (modifiers : Modifiers) (start : Span) :
    Obeys law (typedMember modifiers start) := by
  refine (obeys_type true).bind fun type => (obeys_kindAt 1).bind fun _ => .ite ?_ ?_
  · exact obeys_simpleName.bind fun name => obeys_methodRest modifiers false type name start
  · exact obeys_fragments.bind fun _ => (obeys_expectPunctuator .semicolon).bind fun _ =>
      obeys_node start _

/-- A member keeps to the law as the members inside do. -/
private theorem obeys_memberDeclaration : Obeys law (memberDeclaration member) := by
  refine obeys_currentSpan.bind fun start => obeys_modifiers.bind fun modifiers =>
    obeys_currentKind.bind fun kind => ?_
  split
  · exact obeys_typeDeclaration h modifiers start
  · exact obeys_typeDeclaration h modifiers start
  · exact obeys_unsupported _
  · refine (obeys_kindAt 1).bind fun _ => .ite ?_ (obeys_typedMember modifiers start)
    exact obeys_simpleName.bind fun name => obeys_methodRest modifiers true _ name start

end Members

/-- Every member keeps to the law at every depth, as the members of an inner type are one level
deeper. -/
theorem obeys_memberUpTo (depth : Nat) : Obeys law (memberUpTo depth) := by
  induction depth with
  | zero => exact obeys_unexpected _
  | succ depth ih => exact obeys_memberDeclaration ih

/-- A member is read to the depth the tokens leave. -/
theorem obeys_member : Obeys law member :=
  obeys_bounded obeys_memberUpTo

/-- An import is a name, with a star behind it or none. -/
theorem obeys_importDeclaration : Obeys law importDeclaration := by
  refine (obeys_expectKeyword .importWord).bind fun token =>
    (obeys_eatKeyword (.modifier .staticFlag)).bind fun _ => obeys_name.bind fun _ =>
      (obeys_checkPunctuator .dot).bind fun _ => (obeys_kindAt 1).bind fun _ => .ite
        (obeys_advance.bind fun _ => obeys_advance.bind fun _ => ?_) ?_
  all_goals exact (obeys_expectPunctuator .semicolon).bind fun _ => obeys_node token.span _

private theorem obeys_package : Obeys law package :=
  (obeys_check _).bind fun _ => .ite
    (obeys_advance.bind fun token => obeys_name.bind fun _ =>
      (obeys_expectPunctuator .semicolon).bind fun _ => obeys_node token.span _)
    (obeys_pure _)

private theorem obeys_importStep (imports : List τ) : Obeys law (importStep imports) :=
  (obeys_check _).bind fun _ => .ite
    (obeys_importDeclaration.bind fun _ => obeys_pure _) (obeys_pure _)

private theorem obeys_typeStep (types : List τ) : Obeys law (typeStep types) := by
  refine (obeys_check .endOfFile).bind fun _ => .ite (obeys_pure _) ?_
  refine (obeys_eatPunctuator .semicolon).bind fun _ => .ite (obeys_pure _) ?_
  exact obeys_currentSpan.bind fun start => obeys_modifiers.bind fun modifiers =>
    (obeys_typeDeclaration obeys_member modifiers start).bind fun tree => obeys_pure _

private theorem obeys_compilationUnit : Obeys law compilationUnit :=
  obeys_currentSpan.bind fun start => obeys_package.bind fun _ =>
    (obeys_repeating obeys_importStep []).bind fun _ =>
      (obeys_repeating obeys_typeStep []).bind fun _ => obeys_node start _

/-- Every production moves the cursor and is refused as the law allows. -/
theorem obeys_production (goal : Goal) : Obeys law goal.production := by
  cases goal with
  | compilationUnit => exact obeys_compilationUnit
  | expression => exact obeys_expression

end JavaFold.Grammar
