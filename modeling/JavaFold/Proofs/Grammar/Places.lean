import JavaFold.Proofs.Grammar.ReadBack.Type

/-!
# Reading does not depend on places

Where tokens stand in the source has no influence on what is read, except on the places of the
nodes: a production commutes with forgetting places (`Blind`). Main statement: `blind_production`.
-/

namespace JavaFold

/-- A token without its place. -/
def Token.bare (token : Token) : Token :=
  ⟨token.kind, token.text, .nowhere⟩

/-- A token without its place is of the same kind, which is all that a production asks of it. -/
theorem Token.kind_bare (token : Token) : token.bare.kind = token.kind := rfl

/-- A state of reading without places. -/
def Cursor.bare (cursor : Cursor) : Cursor :=
  ⟨.nowhere, cursor.rest.map Token.bare⟩

namespace Grammar

variable {α β γ δ : Type}

/-- What a production gives without places is what it gives with them, the places being forgotten.
-/
def Blind (f : α → β) (p : Parser Cursor α) (q : Parser Cursor β) : Prop :=
  ∀ c : Cursor, q.outcome c.bare = (p.outcome c).map fun result => (f result.1, result.2.bare)

/-! ## Sequences -/

/-- A value given back is the same value without its places. -/
theorem blind_pure {f : α → β} (a : α) : Blind f (pure a) (pure (f a)) := fun _ => rfl

/-- Two productions in sequence are blind to places if each of them is, whatever the first hands to
the second. -/
theorem Blind.bind {f : α → β} {g : γ → δ} {p : Parser Cursor α} {p' : Parser Cursor β}
    {k : α → Parser Cursor γ}
    {k' : β → Parser Cursor δ} (hp : Blind f p p') (hk : ∀ a, Blind g (k a) (k' (f a))) :
    Blind g (p >>= k) (p' >>= k') := by
  intro c
  rw [outcome_bind, outcome_bind, hp c]
  cases p.outcome c with
  | none => rfl
  | some result => exact hk result.1 result.2

/-- A branch on a kind of token goes the same way without places. -/
theorem Blind.ite {f : α → β} {p q : Parser Cursor α} {p' q' : Parser Cursor β} (b : Bool)
    (hp : Blind f p p')
    (hq : Blind f q q') : Blind f (if b then p else q) (if b then p' else q') := by
  cases b with
  | false => exact hq
  | true => exact hp

/-- A refusal is a refusal without places too; only the error would name one. -/
theorem blind_unexpected {f : α → β} (expected : Expectation) :
    Blind f (unexpected expected) (unexpected expected) := fun _ => rfl

private theorem blind_unsupported {f : α → β} (construct : Construct) :
    Blind f (unsupported construct) (unsupported construct) := fun _ => rfl

/-! ## Single tokens -/

private theorem bare_current (c : Cursor) : c.bare.current = c.current.bare := by
  obtain ⟨span, rest⟩ := c
  cases rest <;> rfl

private theorem bare_advance (c : Cursor) : c.bare.advance = c.advance.bare := by
  obtain ⟨span, rest⟩ := c
  match rest with
  | [] => rfl
  | [_] => rfl
  | _ :: _ :: _ => rfl

private theorem bare_kindAt (c : Cursor) (n : Nat) : c.bare.kindAt n = c.kindAt n := by
  rw [Cursor.kindAt, Cursor.kindAt, Cursor.bare, List.getElem?_map]
  cases c.rest[n]? <;> rfl

private theorem blind_current : Blind Token.bare current current := by
  intro c
  exact congrArg (fun token => some (token, c.bare)) (bare_current c)

private theorem blind_currentKind : Blind id currentKind currentKind := by
  intro c
  have hkind : c.bare.current.kind = c.current.kind := by rw [bare_current, Token.kind_bare]
  exact congrArg (fun kind => some (kind, c.bare)) hkind

private theorem blind_currentSpan : Blind (fun _ => .nowhere) currentSpan currentSpan := by
  intro c
  exact congrArg (fun span => some (span, c.bare)) (congrArg Token.span (bare_current c))

private theorem blind_kindAt (n : Nat) : Blind id (kindAt n) (kindAt n) := by
  intro c
  exact congrArg (fun kind => some (kind, c.bare)) (bare_kindAt c n)

/-- The token taken without places is the token taken, without its place. -/
theorem blind_advance : Blind Token.bare advance advance := by
  intro c
  exact congrArg₂ (fun token c => some (token, c)) (bare_current c) (bare_advance c)

/-- The answer to a question about the next token does not depend on places. -/
theorem blind_check (kind : TokenKind) : Blind id (check kind) (check kind) :=
  blind_currentKind.bind fun _ => blind_pure _

private theorem blind_checkPunctuator (p : Punctuator) :
    Blind id (checkPunctuator p) (checkPunctuator p) :=
  blind_check _

private theorem blind_eat (kind : TokenKind) : Blind id (eat kind) (eat kind) :=
  (blind_check kind).bind fun b =>
    .ite b (blind_advance.bind fun _ => blind_pure _) (blind_pure _)

private theorem blind_eatPunctuator (p : Punctuator) : Blind id (eatPunctuator p)
    (eatPunctuator p) :=
  blind_eat _

private theorem blind_eatKeyword (k : Keyword) : Blind id (eatKeyword k) (eatKeyword k) :=
  blind_eat _

private theorem blind_expect (kind : TokenKind) (expected : Expectation) :
    Blind Token.bare (expect kind expected) (expect kind expected) :=
  (blind_check kind).bind fun b => .ite b blind_advance (blind_unexpected _)

/-- A punctuator that is expected is taken or missed alike with and without places. -/
theorem blind_expectPunctuator (p : Punctuator) :
    Blind Token.bare (expectPunctuator p) (expectPunctuator p) :=
  blind_expect _ _

private theorem blind_expectKeyword (k : Keyword) :
    Blind Token.bare (expectKeyword k) (expectKeyword k) :=
  blind_expect _ _

private theorem blind_build (span : Span) (kind : NodeKind String SourceTree) :
    Blind Tree.bare (Builder.build span kind) (Builder.build .nowhere (kind.map id Tree.bare)) := by
  intro c
  exact congrArg (fun tree => some (tree, c.bare)) (Tree.bare_node _ kind).symm

private theorem blind_node (start : Span) (kind : NodeKind String SourceTree) :
    Blind Tree.bare (node start kind) (node .nowhere (kind.map id Tree.bare)) := by
  intro c
  exact congrArg (fun tree => some (tree, c.bare)) (Tree.bare_node _ kind).symm

/-! ## Repetition -/

private theorem blind_iterate {f : α → β} {step : α → Parser Cursor (Option α)}
    {step' : β → Parser Cursor (Option β)}
    (h : ∀ a, Blind (Option.map f) (step a) (step' (f a))) (turns : Nat) (a : α) :
    Blind f (iterate step turns a) (iterate step' turns (f a)) := by
  induction turns generalizing a with
  | zero => exact blind_pure a
  | succ turns ih =>
    refine (h a).bind fun next => ?_
    cases next with
    | none => exact blind_pure a
    | some next => exact ih next

private theorem blind_bounded {f : α → β} {p : Nat → Parser Cursor α} {q : Nat → Parser Cursor β}
    (h : ∀ depth, Blind f (p depth) (q depth)) : Blind f (bounded p) (bounded q) := by
  intro c
  have hlength : c.bare.rest.length = c.rest.length := List.length_map _
  rw [bounded, bounded, outcome_bind, outcome_bind, outcome_place, outcome_place, Option.bind_some,
    Option.bind_some, hlength]
  exact h _ c

private theorem blind_repeating {f : α → β} {step : α → Parser Cursor (Option α)}
    {step' : β → Parser Cursor (Option β)} (h : ∀ a, Blind (Option.map f) (step a) (step' (f a)))
    (a : α) : Blind f (repeating step a) (repeating step' (f a)) :=
  blind_bounded fun turns => blind_iterate h turns a

private theorem blind_extended (trees : List SourceTree) (tree : SourceTree) :
    Blind (Option.map (List.map Tree.bare)) (pure (some (trees ++ [tree])))
      (pure (some (trees.map Tree.bare ++ [tree.bare]))) := by
  intro c
  rw [outcome_pure, outcome_pure, Option.map_some, Option.map_some, List.map_append]
  rfl

private theorem blind_commaSeparated {item : Parser Cursor SourceTree}
    (h : Blind Tree.bare item item) :
    Blind (List.map Tree.bare) (commaSeparated item) (commaSeparated item) :=
  h.bind fun first => blind_repeating (fun trees => (blind_eatPunctuator .comma).bind fun b =>
    .ite b (h.bind fun tree => blind_extended trees tree) (blind_pure _)) [first]

/-! ## Names, modifiers and types -/

private theorem blind_expectIdentifier : Blind Token.bare expectIdentifier expectIdentifier :=
  blind_expect _ _

/-- A name of one word, read without places, is the name without its places. -/
theorem blind_simpleName : Blind Tree.bare simpleName simpleName :=
  blind_expectIdentifier.bind fun _ => blind_build _ _

private theorem blind_qualifiedStep (start : Span) (name : SourceTree) :
    Blind (Option.map Tree.bare) (qualifiedStep start name)
      (qualifiedStep .nowhere name.bare) :=
  (blind_checkPunctuator .dot).bind fun _ => (blind_kindAt 1).bind fun _ =>
    .ite _ (blind_advance.bind fun _ => blind_simpleName.bind fun _ =>
      (blind_node start _).bind fun _ => blind_pure _) (blind_pure _)

private theorem blind_name : Blind Tree.bare name name :=
  blind_currentSpan.bind fun start => blind_simpleName.bind fun first =>
    blind_repeating (blind_qualifiedStep start) first

private theorem blind_modifierStep (modifiers : Modifiers) :
    Blind (Option.map id) (modifierStep modifiers) (modifierStep modifiers) := by
  refine blind_currentKind.bind fun kind => ?_
  rw [id]
  split
  · exact blind_advance.bind fun _ => blind_pure _
  · exact blind_pure _

/-- The modifiers that are read are the same, since a modifier has no place of its own. -/
theorem blind_modifiers : Blind id modifiers modifiers :=
  blind_repeating blind_modifierStep _

private theorem blind_dimensionStep (start : Span) (component : SourceTree) :
    Blind (Option.map Tree.bare) (dimensionStep start component)
      (dimensionStep .nowhere component.bare) :=
  (blind_checkPunctuator .lbracket).bind fun _ => (blind_kindAt 1).bind fun _ =>
    .ite _ (blind_advance.bind fun _ => blind_advance.bind fun _ =>
      (blind_node start _).bind fun _ => blind_pure _) (blind_pure _)

private theorem blind_dimensions (start : Span) (component : SourceTree) :
    Blind Tree.bare (dimensions start component) (dimensions .nowhere component.bare) :=
  blind_repeating (blind_dimensionStep start) component

private theorem blind_primitiveType (primitive : PrimitiveType) :
    Blind Tree.bare (primitiveType primitive) (primitiveType primitive) :=
  blind_advance.bind fun _ => blind_build _ _

/-- A type, read without places, is the type without its places. -/
theorem blind_type (allowVoid : Bool) : Blind Tree.bare (type allowVoid) (type allowVoid) := by
  refine blind_currentSpan.bind fun start => blind_currentKind.bind fun kind => ?_
  rw [id]
  split
  · exact .ite _ (blind_unexpected _) ((blind_primitiveType _).bind
      fun _ => blind_dimensions start _)
  · exact blind_name.bind fun _ => (blind_node start _).bind fun _ => blind_dimensions start _
  · exact blind_unexpected _

/-! ## Lookahead -/

private theorem blind_lookingAhead {f : α → β} {look : Parser Cursor α} {look' : Parser Cursor β}
    (h : Blind f look look') : Blind f (lookingAhead look) (lookingAhead look') := by
  intro c
  rw [outcome_lookingAhead, outcome_lookingAhead, h c]
  cases look.outcome c <;> rfl

private theorem blind_scanQualifier (u : Unit) :
    Blind (Option.map id) (scanQualifier u) (scanQualifier u) :=
  (blind_checkPunctuator .dot).bind fun _ => (blind_kindAt 1).bind fun _ =>
    .ite _ (blind_advance.bind fun _ => blind_advance.bind fun _ => blind_pure _) (blind_pure _)

private theorem blind_scanDimension (u : Unit) :
    Blind (Option.map id) (scanDimension u) (scanDimension u) :=
  (blind_checkPunctuator .lbracket).bind fun _ => (blind_kindAt 1).bind fun _ =>
    .ite _ (blind_advance.bind fun _ => blind_advance.bind fun _ => blind_pure _) (blind_pure _)

private theorem blind_scanElement : Blind id scanElement scanElement := by
  refine blind_currentKind.bind fun kind => ?_
  rw [id]
  split
  · split
    · exact blind_pure false
    · exact blind_advance.bind fun _ => blind_pure true
  · exact blind_advance.bind fun _ => (blind_repeating blind_scanQualifier ()).bind fun _ =>
      blind_pure true
  · exact blind_pure false

/-- The reading ahead over a type gives the same answer without places. -/
theorem blind_scanType : Blind id scanType scanType :=
  blind_scanElement.bind fun b => .ite b
    ((blind_repeating blind_scanDimension ()).bind fun _ => blind_pure true) (blind_pure false)

/-- Whether a declaration starts at a token is seen without places. -/
theorem blind_atDeclaration : Blind id atDeclaration atDeclaration :=
  blind_lookingAhead <| blind_modifiers.bind fun _ => blind_scanType.bind fun b =>
    .ite b (blind_check .identifier) (blind_pure false)

/-- Whether a cast starts at a token is seen without places. -/
theorem blind_atCast : Blind id atCast atCast :=
  blind_lookingAhead <| blind_advance.bind fun _ => blind_currentKind.bind fun _ =>
    blind_scanType.bind fun b => .ite b ((blind_eatPunctuator .rparen).bind fun b => .ite b
      (blind_currentKind.bind fun _ => blind_pure _) (blind_pure false)) (blind_pure false)

/-! ## Expressions -/

section Expressions

variable {sub : Level → Parser Cursor SourceTree} (hsub : ∀ l, Blind Tree.bare (sub l) (sub l))

include hsub

private theorem blind_arguments : Blind (List.map Tree.bare) (arguments sub) (arguments sub) := by
  refine (blind_expectPunctuator .lparen).bind fun _ => (blind_checkPunctuator .rparen).bind
      fun b =>
    .ite b ?_ ((blind_commaSeparated (hsub .expression)).bind fun _ => ?_)
  all_goals exact (blind_expectPunctuator .rparen).bind fun _ => blind_pure _

omit hsub in
private theorem blind_typeLiteral (start : Span) (type : SourceTree) :
    Blind Tree.bare (typeLiteral start type) (typeLiteral .nowhere type.bare) :=
  (blind_expectPunctuator .dot).bind fun _ => (blind_expectKeyword .classWord).bind fun _ =>
    blind_node start _

omit hsub in
private theorem blind_qualifiedOperandStep (start : Span) (name : SourceTree) :
    Blind (Option.map Tree.bare) (qualifiedOperandStep start name)
      (qualifiedOperandStep .nowhere name.bare) :=
  (blind_kindAt 2).bind fun _ => .ite _ (blind_pure _) (blind_qualifiedStep start name)

private theorem blind_nameOperand : Blind Tree.bare (nameOperand sub) (nameOperand sub) := by
  refine blind_currentSpan.bind fun start => blind_simpleName.bind fun first =>
    (blind_checkPunctuator .lparen).bind fun b => .ite b ?call ?name
  case call => exact (blind_arguments hsub).bind fun _ => blind_node start _
  case name =>
    refine (blind_repeating (blind_qualifiedOperandStep start) first).bind fun name =>
      (blind_checkPunctuator .dot).bind fun _ => (blind_kindAt 1).bind fun _ =>
        .ite _ ((blind_node start _).bind fun _ => blind_typeLiteral start _) ?_
    refine (blind_checkPunctuator .lbracket).bind fun _ => (blind_kindAt 1).bind fun _ =>
      .ite _ ?_ (blind_pure name)
    exact (blind_node start _).bind fun _ => (blind_dimensions start _).bind fun _ =>
      blind_typeLiteral start _

private theorem blind_instanceCreation :
    Blind Tree.bare (instanceCreation sub) (instanceCreation sub) := by
  refine (blind_expectKeyword .newWord).bind fun token => (blind_check .identifier).bind fun _ =>
    .ite _ (blind_unsupported _) ?_
  refine blind_currentSpan.bind fun start => blind_name.bind fun _ => (blind_node start _).bind
      fun _ =>
    (blind_checkPunctuator .lbracket).bind fun b => .ite b (blind_unsupported _) ?_
  exact (blind_arguments hsub).bind fun _ => (blind_checkPunctuator .lbrace).bind fun b =>
    .ite b (blind_unsupported _) (blind_node token.span _)

omit hsub in
private theorem blind_leaf (kind : NodeKind String SourceTree) :
    Blind Tree.bare (leaf kind) (leaf (kind.map id Tree.bare)) :=
  blind_advance.bind fun _ => blind_build _ kind

private theorem blind_primary : Blind Tree.bare (primary sub) (primary sub) := by
  refine blind_current.bind fun token => ?_
  rw [Token.kind_bare]
  split
  any_goals exact blind_leaf _
  · exact blind_instanceCreation hsub
  · exact (blind_primitiveType _).bind fun _ => (blind_dimensions token.span _).bind fun _ =>
      blind_typeLiteral token.span _
  · exact blind_advance.bind fun _ => (hsub .expression).bind fun _ =>
      (blind_expectPunctuator .rparen).bind fun _ => blind_node token.span _
  · exact blind_nameOperand hsub
  · exact blind_unexpected _

private theorem blind_selectorStep (start : Span) (operand : SourceTree) :
    Blind (Option.map Tree.bare) (selectorStep sub start operand)
      (selectorStep sub .nowhere operand.bare) := by
  refine (blind_eatPunctuator .dot).bind fun b => .ite b ?member ?_
  case member =>
    exact blind_simpleName.bind fun _ => (blind_checkPunctuator .lparen).bind fun b => .ite b
      ((blind_arguments hsub).bind fun _ => (blind_node start _).bind fun _ => blind_pure _)
      ((blind_node start _).bind fun _ => blind_pure _)
  refine (blind_eatPunctuator .lbracket).bind fun b => .ite b ?_ (blind_pure _)
  exact (hsub .expression).bind fun _ => (blind_expectPunctuator .rbracket).bind fun _ =>
    (blind_node start _).bind fun _ => blind_pure _

omit hsub in
private theorem blind_postfixStep (start : Span) (operand : SourceTree) :
    Blind (Option.map Tree.bare) (postfixStep start operand)
      (postfixStep .nowhere operand.bare) := by
  refine blind_currentKind.bind fun kind => ?_
  rw [id]
  split
  · exact blind_advance.bind fun _ => (blind_node start _).bind fun _ => blind_pure _
  · exact blind_pure _

private theorem blind_postfixed : Blind Tree.bare (postfixed sub) (postfixed sub) :=
  blind_currentSpan.bind fun start => (blind_primary hsub).bind fun operand =>
    (blind_repeating (blind_selectorStep hsub start) operand).bind fun selected =>
      blind_repeating (blind_postfixStep start) selected

private theorem blind_unary : Blind Tree.bare (unary sub) (unary sub) := by
  refine blind_currentSpan.bind fun start => blind_currentKind.bind fun kind => ?_
  rw [id]
  split
  · exact blind_advance.bind fun _ => (hsub .unary).bind fun _ => blind_node start _
  · refine (blind_checkPunctuator .lparen).bind fun _ => blind_atCast.bind fun _ =>
      .ite _ ?_ (blind_postfixed hsub)
    exact blind_advance.bind fun _ => (blind_type false).bind fun _ =>
      (blind_expectPunctuator .rparen).bind fun _ => (hsub .unary).bind fun _ => blind_node start _

private theorem blind_binaryStep (least : Nat) (start : Span) (left : SourceTree) :
    Blind (Option.map Tree.bare) (binaryStep sub least start left)
      (binaryStep sub least .nowhere left.bare) := by
  refine blind_currentKind.bind fun kind => ?_
  rw [id]
  refine .ite _ ?_ ?_
  · exact blind_advance.bind fun _ => (blind_type false).bind fun _ => (blind_node start _).bind
      fun _ =>
      blind_pure _
  split
  · split
    · exact blind_pure _
    · exact blind_advance.bind fun _ => (hsub _).bind fun _ => (blind_node start _).bind fun _ =>
        blind_pure _
  · exact blind_pure _

private theorem blind_binary (least : Nat) : Blind Tree.bare (binary sub least)
    (binary sub least) :=
  blind_currentSpan.bind fun start => (blind_unary hsub).bind fun operand =>
    blind_repeating (blind_binaryStep hsub least start) operand

private theorem blind_conditional : Blind Tree.bare (conditional sub) (conditional sub) := by
  refine blind_currentSpan.bind fun start => (blind_binary hsub 1).bind fun condition =>
    (blind_eatPunctuator .question).bind fun b => .ite b ?_ (blind_pure condition)
  exact (hsub .expression).bind fun _ => (blind_expectPunctuator .colon).bind fun _ =>
    (hsub .conditional).bind fun _ => blind_node start _

private theorem blind_assignment : Blind Tree.bare (assignment sub) (assignment sub) := by
  refine blind_currentSpan.bind fun start => (blind_conditional hsub).bind fun left =>
    blind_currentKind.bind fun kind => ?_
  rw [id]
  split
  · exact blind_advance.bind fun _ => (hsub .expression).bind fun _ => blind_node start _
  · exact blind_pure left

end Expressions

private theorem blind_level (depth : Nat) (l : Level) : Blind Tree.bare (level depth l)
    (level depth l) := by
  induction depth generalizing l with
  | zero => exact blind_unexpected _
  | succ depth ih =>
    cases l with
    | expression => exact blind_assignment ih
    | conditional => exact blind_conditional ih
    | binary least => exact blind_binary ih least
    | unary => exact blind_unary ih

private theorem blind_expression : Blind Tree.bare expression expression :=
  blind_bounded fun depth => blind_level depth .expression

/-! ## Statements -/

private theorem blind_initializer : Blind Tree.bare initializer initializer :=
  (blind_eatPunctuator .eq).bind fun b => .ite b
    ((blind_checkPunctuator .lbrace).bind fun b => .ite b (blind_unsupported _) blind_expression)
    (blind_pure Tree.absent)

private theorem blind_fragment : Blind Tree.bare fragment fragment :=
  blind_currentSpan.bind fun start => blind_simpleName.bind fun _ => blind_initializer.bind fun _ =>
    blind_node start _

private theorem blind_fragments : Blind (List.map Tree.bare) fragments fragments :=
  blind_commaSeparated blind_fragment

private theorem blind_localDeclaration : Blind Tree.bare localDeclaration localDeclaration :=
  blind_currentSpan.bind fun start => blind_modifiers.bind fun _ => (blind_type false).bind fun _ =>
    blind_fragments.bind fun _ => blind_node start _

private theorem blind_condition : Blind Tree.bare condition condition :=
  (blind_expectPunctuator .lparen).bind fun _ => blind_expression.bind fun _ =>
    (blind_expectPunctuator .rparen).bind fun _ => blind_pure _

private theorem blind_forInitializers : Blind
    (List.map Tree.bare) forInitializers forInitializers := by
  refine blind_atDeclaration.bind fun b => .ite b ?declaration ?_
  case declaration =>
    exact blind_localDeclaration.bind fun _ => (blind_checkPunctuator .colon).bind fun b =>
      .ite b (blind_unsupported _) (blind_pure _)
  exact (blind_checkPunctuator .semicolon).bind fun b =>
    .ite b (blind_pure []) (blind_commaSeparated blind_expression)

private theorem blind_optionalExpression (stop : Punctuator) :
    Blind Tree.bare (optionalExpression stop) (optionalExpression stop) :=
  (blind_checkPunctuator stop).bind fun b => .ite b (blind_pure Tree.absent) blind_expression

private theorem blind_optionalExpressions (stop : Punctuator) :
    Blind (List.map Tree.bare) (optionalExpressions stop) (optionalExpressions stop) :=
  (blind_checkPunctuator stop).bind fun b =>
    .ite b (blind_pure []) (blind_commaSeparated blind_expression)

private theorem blind_returnStatement : Blind Tree.bare returnStatement returnStatement :=
  (blind_expectKeyword .returnWord).bind fun token => (blind_optionalExpression .semicolon).bind
      fun _ =>
    (blind_expectPunctuator .semicolon).bind fun _ => blind_node token.span _

private theorem blind_throwStatement : Blind Tree.bare throwStatement throwStatement :=
  (blind_expectKeyword .throwWord).bind fun token => blind_expression.bind fun _ =>
    (blind_expectPunctuator .semicolon).bind fun _ => blind_node token.span _

private theorem blind_keywordStatement (keyword : Keyword) (kind : NodeKind String SourceTree) :
    Blind Tree.bare (keywordStatement keyword kind)
      (keywordStatement keyword (kind.map id Tree.bare)) :=
  (blind_expectKeyword keyword).bind fun token => (blind_expectPunctuator .semicolon).bind fun _ =>
    blind_node token.span _

private theorem blind_plainStatement : Blind Tree.bare plainStatement plainStatement := by
  refine blind_currentSpan.bind fun start => blind_atDeclaration.bind fun b => .ite b ?_ ?_
  · exact blind_localDeclaration.bind fun _ => (blind_expectPunctuator .semicolon).bind fun _ =>
      blind_pure _
  · exact blind_expression.bind fun _ => (blind_expectPunctuator .semicolon).bind fun _ =>
      blind_node start _

section Statements

variable {statement : Parser Cursor SourceTree} (h : Blind Tree.bare statement statement)

include h

private theorem blind_blockStep (statements : List SourceTree) :
    Blind (Option.map (List.map Tree.bare)) (blockStep statement statements)
      (blockStep statement (statements.map Tree.bare)) := by
  refine (blind_checkPunctuator .rbrace).bind fun b => .ite b (blind_pure none) ?_
  exact (blind_check .endOfFile).bind fun b => .ite b (blind_unexpected _)
    (h.bind fun tree => blind_extended statements tree)

private theorem blind_block : Blind Tree.bare (block statement) (block statement) :=
  (blind_expectPunctuator .lbrace).bind fun token =>
    (blind_repeating (blind_blockStep h) []).bind fun _ =>
      (blind_expectPunctuator .rbrace).bind fun _ => blind_node token.span _

private theorem blind_forStatement : Blind Tree.bare (forStatement statement)
    (forStatement statement) := by
  refine (blind_expectKeyword .forWord).bind fun token => (blind_expectPunctuator .lparen).bind
      fun _ =>
    blind_forInitializers.bind fun _ => (blind_expectPunctuator .semicolon).bind fun _ => ?_
  refine (blind_optionalExpression .semicolon).bind fun _ =>
    (blind_expectPunctuator .semicolon).bind fun _ => (blind_optionalExpressions .rparen).bind
        fun _ => ?_
  exact (blind_expectPunctuator .rparen).bind fun _ => h.bind fun _ => blind_node token.span _

private theorem blind_ifStatement : Blind Tree.bare (ifStatement statement)
    (ifStatement statement) := by
  refine (blind_expectKeyword .ifWord).bind fun token => blind_condition.bind fun _ => h.bind
      fun _ =>
    (blind_eatKeyword .elseWord).bind fun b => .ite b ?_ ?_
  · exact h.bind fun _ => blind_node token.span _
  · exact (blind_pure (f := Tree.bare) Tree.absent).bind fun _ => blind_node token.span _

private theorem blind_whileStatement :
    Blind Tree.bare (whileStatement statement) (whileStatement statement) :=
  (blind_expectKeyword .whileWord).bind fun token => blind_condition.bind fun _ => h.bind fun _ =>
    blind_node token.span _

private theorem blind_doStatement : Blind Tree.bare (doStatement statement)
    (doStatement statement) :=
  (blind_expectKeyword .doWord).bind fun token => h.bind fun _ =>
    (blind_expectKeyword .whileWord).bind fun _ => blind_condition.bind fun _ =>
      (blind_expectPunctuator .semicolon).bind fun _ => blind_node token.span _

private theorem blind_statementStep :
    Blind Tree.bare (statementStep statement) (statementStep statement) := by
  refine blind_currentKind.bind fun kind => ?_
  rw [id]
  split
  · exact blind_block h
  · exact blind_leaf _
  · exact blind_ifStatement h
  · exact blind_whileStatement h
  · exact blind_doStatement h
  · exact blind_forStatement h
  · exact blind_returnStatement
  · exact blind_keywordStatement _ _
  · exact blind_keywordStatement _ _
  · exact blind_throwStatement
  · exact blind_unsupported _
  · exact blind_unsupported _
  · exact blind_plainStatement

end Statements

private theorem blind_statement : Blind Tree.bare statement statement := by
  refine blind_bounded fun depth => ?_
  induction depth with
  | zero => exact blind_unexpected _
  | succ depth ih => exact blind_statementStep ih

/-! ## Declarations -/

private theorem blind_parameter : Blind Tree.bare parameter parameter :=
  blind_currentSpan.bind fun start => blind_modifiers.bind fun _ => (blind_type false).bind fun _ =>
    (blind_eatPunctuator .ellipsis).bind fun _ => blind_simpleName.bind fun _ => blind_node start _

private theorem blind_parameters : Blind (List.map Tree.bare) parameters parameters := by
  refine (blind_expectPunctuator .lparen).bind fun _ => (blind_checkPunctuator .rparen).bind
      fun b =>
    .ite b ?_ ((blind_commaSeparated blind_parameter).bind fun _ => ?_)
  all_goals exact (blind_expectPunctuator .rparen).bind fun _ => blind_pure _

private theorem blind_checkIdentifier (text : String) :
    Blind id (checkIdentifier text) (checkIdentifier text) :=
  blind_current.bind fun _ => blind_pure _

private theorem blind_methodRest (modifiers : Modifiers) (constructor : Bool)
    (returnType name : SourceTree)
    (start : Span) :
    Blind Tree.bare (methodRest modifiers constructor returnType name start)
      (methodRest modifiers constructor returnType.bare name.bare .nowhere) := by
  refine blind_parameters.bind fun _ => (blind_checkIdentifier "throws").bind fun b =>
    .ite b (blind_unsupported _) ((blind_eatPunctuator .semicolon).bind fun b => .ite b ?_ ?_)
  · exact (blind_pure (f := Tree.bare) Tree.absent).bind fun _ => blind_node start _
  · exact (blind_block blind_statement).bind fun _ => blind_node start _

section Members

variable {member : Parser Cursor SourceTree} (h : Blind Tree.bare member member)

include h

private theorem blind_memberStep (members : List SourceTree) :
    Blind (Option.map (List.map Tree.bare)) (memberStep member members)
      (memberStep member (members.map Tree.bare)) := by
  refine (blind_checkPunctuator .rbrace).bind fun b => .ite b (blind_pure none) ?_
  refine (blind_check .endOfFile).bind fun b => .ite b (blind_unexpected _) ?_
  exact (blind_eatPunctuator .semicolon).bind fun b => .ite b (blind_pure (some members))
    (h.bind fun tree => blind_extended members tree)

private theorem blind_typeDeclaration (modifiers : Modifiers) (start : Span) :
    Blind Tree.bare (typeDeclaration member modifiers start)
      (typeDeclaration member modifiers .nowhere) := by
  refine (blind_eatKeyword .interfaceWord).bind fun interface =>
    .ite _ ((blind_expectKeyword .classWord).bind fun _ => ?_) ?_
  all_goals
    refine blind_simpleName.bind fun name => (blind_eatKeyword .extendsWord).bind fun b =>
      .ite b ((blind_type false).bind fun superclass => ?_)
        ((blind_pure (f := Tree.bare) Tree.absent).bind fun superclass => ?_)
  all_goals
    refine (blind_checkIdentifier "implements").bind fun b => .ite b (blind_unsupported _) ?_
    exact (blind_expectPunctuator .lbrace).bind fun _ =>
      (blind_repeating (blind_memberStep h) []).bind fun _ =>
        (blind_expectPunctuator .rbrace).bind fun _ => blind_node start _

omit h in
private theorem blind_typedMember (modifiers : Modifiers) (start : Span) :
    Blind Tree.bare (typedMember modifiers start) (typedMember modifiers .nowhere) := by
  refine (blind_type true).bind fun type => (blind_kindAt 1).bind fun _ => .ite _ ?_ ?_
  · exact blind_simpleName.bind fun name => blind_methodRest modifiers false type name start
  · exact blind_fragments.bind fun _ => (blind_expectPunctuator .semicolon).bind fun _ =>
      blind_node start _

private theorem blind_memberDeclaration :
    Blind Tree.bare (memberDeclaration member) (memberDeclaration member) := by
  refine blind_currentSpan.bind fun start => blind_modifiers.bind fun modifiers =>
    blind_currentKind.bind fun kind => ?_
  rw [id]
  split
  · exact blind_typeDeclaration h modifiers start
  · exact blind_typeDeclaration h modifiers start
  · exact blind_unsupported _
  · refine (blind_kindAt 1).bind fun _ => .ite _ ?_ (blind_typedMember modifiers start)
    exact blind_simpleName.bind fun name => blind_methodRest modifiers true .absent name start

end Members

private theorem blind_member : Blind Tree.bare member member := by
  refine blind_bounded fun depth => ?_
  induction depth with
  | zero => exact blind_unexpected _
  | succ depth ih => exact blind_memberDeclaration ih

private theorem blind_importDeclaration : Blind Tree.bare importDeclaration importDeclaration := by
  refine (blind_expectKeyword .importWord).bind fun token =>
    (blind_eatKeyword (.modifier .staticFlag)).bind fun _ => blind_name.bind fun _ =>
      (blind_checkPunctuator .dot).bind fun _ => (blind_kindAt 1).bind fun _ => .ite _
        (blind_advance.bind fun _ => blind_advance.bind fun _ => ?_) ?_
  all_goals exact (blind_expectPunctuator .semicolon).bind fun _ => blind_node token.span _

private theorem blind_package : Blind Tree.bare package package :=
  (blind_check _).bind fun b => .ite b
    (blind_advance.bind fun token => blind_name.bind fun _ =>
      (blind_expectPunctuator .semicolon).bind fun _ => blind_node token.span _)
    (blind_pure Tree.absent)

private theorem blind_importStep (imports : List SourceTree) :
    Blind (Option.map (List.map Tree.bare)) (importStep imports)
      (importStep (imports.map Tree.bare)) :=
  (blind_check _).bind fun b => .ite b
    (blind_importDeclaration.bind fun tree => blind_extended imports tree) (blind_pure none)

private theorem blind_typeStep (types : List SourceTree) :
    Blind (Option.map (List.map Tree.bare)) (typeStep types) (typeStep (types.map Tree.bare)) := by
  refine (blind_check .endOfFile).bind fun b => .ite b (blind_pure none) ?_
  refine (blind_eatPunctuator .semicolon).bind fun b => .ite b (blind_pure (some types)) ?_
  exact blind_currentSpan.bind fun start => blind_modifiers.bind fun modifiers =>
    (blind_typeDeclaration blind_member modifiers start).bind fun tree => blind_extended types tree

private theorem blind_compilationUnit : Blind Tree.bare compilationUnit compilationUnit :=
  blind_currentSpan.bind fun start => blind_package.bind fun _ =>
    (blind_repeating blind_importStep []).bind fun _ =>
      (blind_repeating blind_typeStep []).bind fun _ => blind_node start _

/-- Places do not decide what a source is read as. -/
theorem blind_production (goal : Goal) : Blind Tree.bare goal.production goal.production := by
  cases goal with
  | compilationUnit => exact blind_compilationUnit
  | expression => exact blind_expression

end Grammar

end JavaFold
