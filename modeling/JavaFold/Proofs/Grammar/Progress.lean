import JavaFold.Arena.Source
import JavaFold.Proofs.Grammar.Advance
import JavaFold.Proofs.Grammar.Lift

/-!
# Reading makes progress

Every production of the grammar that reads a part of a source text takes at least one token, and
the calls in it come after that token. So every loop makes its step at most once for each token that
remains, and productions are nested no deeper than there are tokens: the bounds that loops and
nesting are given are never reached. Main statement: `progress_of_closed`.

A production is compared with the same production over other calls (`Leads`), which says at once
that it goes on and that only what is called further on matters.
-/

namespace JavaFold.Grammar

open Reading Builder

variable {σ τ : Type} [Reading σ] [Builder σ τ] {tokens : List Token} {lo : Nat}

/-! ## Names, modifiers and types -/

/-- A name of one word takes its identifier. -/
private theorem leads_simpleName : Leads tokens lo (lo + 1) (simpleName : Parser σ τ) simpleName :=
  leads_expectIdentifier.bind fun _ => (obeys_build _ _).leads

private theorem turns_qualifiedStep (start : Span) :
    Turns tokens lo (qualifiedStep start : τ → Parser σ (Option τ)) (qualifiedStep start) := by
  intro position _ name
  refine alike_lookahead nofun (fun _ => gives_kindAt 1) ?_ (alike_pure fun _ hc => hc)
  exact gives_advance_passing.alike.bind fun _ => obeys_simpleName.leads.bind fun _ =>
    (obeys_node start _).leads.bind fun _ => alike_pure fun _ hc => hc

/-- A name takes its first word; the turns behind it take two tokens each. -/
private theorem leads_name : Leads tokens lo (lo + 1) (name : Parser σ τ) name :=
  obeys_currentSpan.leads.bind fun start => leads_simpleName.bind fun first =>
    leads_repeating (turns_qualifiedStep start) first

private theorem turns_modifierStep : Turns tokens lo
    (modifierStep : Modifiers → Parser σ (Option Modifiers)) modifierStep := by
  intro position _ modifiers
  refine alike_currentKind fun kind => ?_
  split
  · refine .taking nofun ?_
    exact gives_advance_passing.alike.bind fun _ => alike_pure fun _ hc => hc
  · exact alike_pure fun _ hc => hc.1

private theorem turns_dimensionStep (start : Span) :
    Turns tokens lo (dimensionStep start : τ → Parser σ (Option τ)) (dimensionStep start) := by
  intro position _ component
  refine alike_lookahead nofun (fun _ => gives_kindAt 1) ?_ (alike_pure fun _ hc => hc)
  exact gives_advance_passing.alike.bind fun _ => obeys_advance.leads.bind fun _ =>
    (obeys_node start _).leads.bind fun _ => alike_pure fun _ hc => hc

private theorem alike_primitiveType (primitive : PrimitiveType) :
    Alike (Ready tokens lo) (primitiveType primitive : Parser σ τ) (primitiveType primitive)
        fun _ =>
      From tokens (lo + 1) :=
  gives_advance_passing.alike.bind fun _ => (obeys_build _ _).leads

/-- A type takes a keyword or the first word of a name, and `void` where it is allowed. -/
private theorem leads_type (allowVoid : Bool) :
    Leads tokens lo (lo + 1) (type allowVoid : Parser σ τ) (type allowVoid) := by
  refine obeys_currentSpan.leads.bind fun start => alike_currentKind fun kind => ?_
  split
  · refine .ite alike_unexpected (.taking nofun ?_)
    exact (alike_primitiveType _).bind fun _ => (obeys_dimensions start _).leads
  · exact (leads_name.bind fun _ => (obeys_node start _).leads.bind fun _ =>
      (obeys_dimensions start _).leads).facing
  · exact alike_unexpected

/-! ## Lists with commas -/

/-- One more item after a comma. -/
def commaStep {α : Type} (item : Parser σ α) (items : List α) : Parser σ (Option (List α)) := do
  if ← eatPunctuator .comma then
    return some (items ++ [← item])
  else
    return none

private theorem commaSeparated_eq {α : Type} (item : Parser σ α) :
    commaSeparated item = item >>= fun first => repeating (commaStep item) [first] := rfl

private theorem turns_commaStep {α : Type} {item item' : Parser σ α}
    (h : Takes tokens (lo + 1) item item') :
    Turns tokens lo (commaStep item) (commaStep item') := by
  intro position hle items
  refine alike_eat nofun ?_ (alike_pure fun _ hc => hc)
  exact (h.mono (Nat.succ_le_succ hle)).stays.bind fun _ => alike_pure fun _ hc => hc

/-- A list takes its first item, and every further turn takes a comma first. -/
private theorem leads_commaSeparated {α : Type} {item item' : Parser σ α}
    (h : Takes tokens lo item item') :
    Leads tokens lo (lo + 1) (commaSeparated item) (commaSeparated item') := by
  rw [commaSeparated_eq, commaSeparated_eq]
  refine h.leads.bind fun first => leads_repeating (turns_commaStep (h.mono ?_)) [first]
  omega

/-! ## Expressions -/

section Expressions

variable {sub sub' : Level → Parser σ τ} (hsub : ∀ l, Takes tokens (lo + 1) (sub l) (sub' l))

include hsub

/-- Arguments take their opening parenthesis before the first expression inside is read. -/
private theorem leads_arguments : Leads tokens lo (lo + 1) (arguments sub) (arguments sub') := by
  refine (leads_expectPunctuator .lparen).bind fun _ =>
    (obeys_checkPunctuator .rparen).leads.bind fun _ => .ite ?_
      (((leads_commaSeparated (hsub .expression)).back (Nat.le_succ _)).bind fun _ => ?_)
  all_goals
    exact (obeys_expectPunctuator .rparen).leads.bind fun _ => alike_pure fun _ hc => hc

omit hsub in
private theorem stays_arguments (hsub : ∀ l, Takes tokens lo (sub l) (sub' l)) :
    Leads tokens lo lo (arguments sub) (arguments sub') :=
  (leads_arguments fun l => (hsub l).mono (Nat.le_succ lo)).back (Nat.le_succ lo)

omit hsub in
private theorem turns_qualifiedOperandStep (start : Span) :
    Turns tokens lo (qualifiedOperandStep start : τ → Parser σ (Option τ))
      (qualifiedOperandStep start) := by
  intro position hle name
  exact (obeys_kindAt 2).leads.bind fun _ =>
    .ite (alike_pure fun _ hc => hc) (turns_qualifiedStep start position hle name)

/-- An operand that starts with a name takes its first word before it reads arguments. -/
private theorem leads_nameOperand : Leads tokens lo (lo + 1) (nameOperand sub)
    (nameOperand sub') := by
  refine obeys_currentSpan.leads.bind fun start => leads_simpleName.bind fun first =>
    (obeys_checkPunctuator .lparen).leads.bind fun _ => .ite ?call (Obeys.leads ?name)
  case call => exact (stays_arguments hsub).bind fun _ => (obeys_node start _).leads
  case name =>
    refine (obeys_repeating (obeys_qualifiedOperandStep start) first).bind fun name =>
      (obeys_checkPunctuator .dot).bind fun _ => (obeys_kindAt 1).bind fun _ =>
        .ite ((obeys_node start _).bind fun _ => obeys_typeLiteral start _) ?_
    refine (obeys_checkPunctuator .lbracket).bind fun _ => (obeys_kindAt 1).bind fun _ =>
      .ite ?_ (obeys_pure _)
    exact (obeys_node start _).bind fun _ => (obeys_dimensions start _).bind fun _ =>
      obeys_typeLiteral start _

/-- An instance creation takes `new` before the name and the arguments. -/
private theorem leads_instanceCreation :
    Leads tokens lo (lo + 1) (instanceCreation sub) (instanceCreation sub') := by
  refine (leads_expectKeyword .newWord).bind fun token => (obeys_check .identifier).leads.bind
      fun _ =>
    .ite alike_unsupported ?_
  refine obeys_currentSpan.leads.bind fun start => obeys_name.leads.bind fun _ =>
    (obeys_node start _).leads.bind fun _ => (obeys_checkPunctuator .lbracket).leads.bind fun _ =>
      .ite alike_unsupported ?_
  exact (stays_arguments hsub).bind fun _ => (obeys_checkPunctuator .lbrace).leads.bind fun _ =>
    .ite alike_unsupported (obeys_node token.span _).leads

omit hsub in
private theorem alike_leaf (kind : NodeKind String τ) :
    Alike (Ready tokens lo) (leaf kind : Parser σ τ) (leaf kind) fun _ => From tokens (lo + 1) :=
  gives_advance_passing.alike.bind fun _ => (obeys_build _ kind).leads

/-- A primary takes its first token whatever it is: one case for each token that starts one. -/
private theorem leads_primary : Leads tokens lo (lo + 1) (primary sub) (primary sub') := by
  refine alike_current fun token => ?_
  generalize token.kind = kind
  split
  any_goals exact .taking nofun (alike_leaf _)
  · exact (leads_instanceCreation hsub).facing
  · refine .taking nofun ((alike_primitiveType _).bind fun _ => ?_)
    exact (obeys_dimensions token.span _).leads.bind fun _ => (obeys_typeLiteral token.span _).leads
  · refine .taking nofun (gives_advance_passing.alike.bind fun _ => ?_)
    exact (hsub .expression).stays.bind fun _ => (obeys_expectPunctuator .rparen).leads.bind
        fun _ =>
      (obeys_node token.span _).leads
  · exact (leads_nameOperand hsub).facing
  · exact alike_unexpected

/-- A selector takes its point or bracket before the arguments or the index inside. -/
private theorem turns_selectorStep (start : Span) :
    Turns tokens lo (selectorStep sub start) (selectorStep sub' start) := by
  intro position hle operand
  have hsub : ∀ l, Takes tokens (position + 1) (sub l) (sub' l) := fun l =>
    (hsub l).mono (Nat.succ_le_succ hle)
  refine alike_eat nofun ?member (alike_eat nofun ?element (alike_pure fun _ hc => hc))
  case member =>
    exact obeys_simpleName.leads.bind fun _ => (obeys_checkPunctuator .lparen).leads.bind
        fun _ => .ite
      ((stays_arguments hsub).bind fun _ => (obeys_node start _).leads.bind fun _ =>
        alike_pure fun _ hc => hc)
      ((obeys_node start _).leads.bind fun _ => alike_pure fun _ hc => hc)
  case element =>
    exact (hsub .expression).stays.bind fun _ => (obeys_expectPunctuator .rbracket).leads.bind
        fun _ =>
      (obeys_node start _).leads.bind fun _ => alike_pure fun _ hc => hc

omit hsub in
private theorem ne_endOfFile_of_punctuator? {α : Type} {kind : TokenKind}
    {f : Punctuator → Option α} {a : α}
    (h : kind.punctuator?.bind f = some a) : kind ≠ .endOfFile := by
  rintro rfl
  cases h

omit hsub in
/-- A postfix operator is a token taken. -/
private theorem turns_postfixStep (start : Span) :
    Turns tokens lo (postfixStep start : τ → Parser σ (Option τ)) (postfixStep start) := by
  intro position _ operand
  refine alike_currentKind fun kind => ?_
  split
  next h =>
    refine .taking (ne_endOfFile_of_punctuator? h) (gives_advance_passing.alike.bind fun _ => ?_)
    exact (obeys_node start _).leads.bind fun _ => alike_pure fun _ hc => hc
  next => exact alike_pure fun _ hc => hc.1

/-- The primary takes a token, and the turns behind it take one each. -/
private theorem leads_postfixed : Leads tokens lo (lo + 1) (postfixed sub) (postfixed sub') :=
  obeys_currentSpan.leads.bind fun start => (leads_primary hsub).bind fun operand =>
    (leads_repeating (turns_selectorStep (fun l => (hsub l).mono
        (Nat.le_succ _)) start) operand).bind
      fun selected => leads_repeating (turns_postfixStep start) selected

/-- A prefix operator or the parenthesis of a cast is taken before the operand behind it is read. -/
private theorem leads_unary : Leads tokens lo (lo + 1) (unary sub) (unary sub') := by
  refine obeys_currentSpan.leads.bind fun start => alike_currentKind fun kind => ?_
  split
  next h =>
    refine .taking (ne_endOfFile_of_punctuator? h) (gives_advance_passing.alike.bind fun _ => ?_)
    exact (hsub .unary).stays.bind fun _ => (obeys_node start _).leads
  next =>
    refine Alike.facing (alike_lookahead nofun (fun _ => gives_lookingAhead) ?_
        (leads_postfixed hsub))
    exact gives_advance_passing.alike.bind fun _ => (obeys_type false).leads.bind fun _ =>
      (obeys_expectPunctuator .rparen).leads.bind fun _ => (hsub .unary).stays.bind fun _ =>
        (obeys_node start _).leads

/-- An infix operator is taken before its right operand is read. -/
private theorem turns_binaryStep (least : Nat) (start : Span) :
    Turns tokens lo (binaryStep sub least start) (binaryStep sub' least start) := by
  intro position hle left
  refine alike_currentKind fun kind => ?_
  split
  next h =>
    have hkind : kind ≠ .endOfFile := by
      rintro rfl
      cases h
    refine .taking hkind (gives_advance_passing.alike.bind fun _ => ?_)
    exact (obeys_type false).leads.bind fun _ => (obeys_node start _).leads.bind fun _ =>
      alike_pure fun _ hc => hc
  next =>
    split
    next h =>
      refine .ite (alike_pure fun _ hc => hc.1) ?_
      refine .taking (ne_endOfFile_of_punctuator? h) (gives_advance_passing.alike.bind fun _ => ?_)
      exact ((hsub _).mono (Nat.succ_le_succ hle)).stays.bind fun _ =>
        (obeys_node start _).leads.bind fun _ => alike_pure fun _ hc => hc
    next => exact alike_pure fun _ hc => hc.1

private theorem leads_binary (least : Nat) :
    Leads tokens lo (lo + 1) (binary sub least) (binary sub' least) :=
  obeys_currentSpan.leads.bind fun start => (leads_unary hsub).bind fun operand =>
    leads_repeating (turns_binaryStep (fun l => (hsub l).mono (Nat.le_succ _)) least start) operand

/-- Whatever follows the question mark is read behind a condition that took a token. -/
private theorem leads_conditional : Leads tokens lo (lo + 1) (conditional sub)
    (conditional sub') := by
  refine obeys_currentSpan.leads.bind fun start => (leads_binary hsub 1).bind fun condition =>
    (obeys_eatPunctuator .question).leads.bind fun _ => .ite ?_ (alike_pure fun _ hc => hc)
  exact (hsub .expression).stays.bind fun _ => (obeys_expectPunctuator .colon).leads.bind fun _ =>
    (hsub .conditional).stays.bind fun _ => (obeys_node start _).leads

/-- The value of an assignment is read behind a target and an operator. -/
private theorem leads_assignment : Leads tokens lo (lo + 1) (assignment sub) (assignment sub') := by
  refine obeys_currentSpan.leads.bind fun start => (leads_conditional hsub).bind fun left =>
    obeys_currentKind.leads.bind fun kind => ?_
  split
  · exact obeys_advance.leads.bind fun _ => (hsub .expression).stays.bind fun _ =>
      (obeys_node start _).leads
  · exact alike_pure fun _ hc => hc

end Expressions

/-! ## Nesting -/

/-- Productions that call each other to a depth, given what stands in place of the calls there. -/
def nest {ι α : Type} (body : (ι → Parser σ α) → ι → Parser σ α) (bottom : ι → Parser σ α) :
    Nat → ι → Parser σ α
  | 0 => bottom
  | depth + 1 => body (nest body bottom depth)

/-- A production takes a token, and the calls in it come after that. -/
def Descends {ι α : Type} (body : (ι → Parser σ α) → ι → Parser σ α) : Prop :=
  ∀ {tokens : List Token} {lo : Nat} {sub sub' : ι → Parser σ α},
    (∀ i, Takes tokens (lo + 1) (sub i) (sub' i)) →
      ∀ i, Leads tokens lo (lo + 1) (body sub i) (body sub' i)

section Nesting

variable {ι α : Type} {body : (ι → Parser σ α) → ι → Parser σ α} {bottom bottom' : ι → Parser σ α}

/-- A class that reads the next one only behind a token takes one itself. -/
private theorem Descends.takes (h : Descends body) {sub sub' : ι → Parser σ α}
    (hsub : ∀ i, Takes tokens (lo + 1) (sub i) (sub' i)) (i : ι) :
    Takes tokens lo (body sub i) (body sub' i) :=
  fun _ hle => h (fun i => (hsub i).mono (Nat.succ_le_succ hle)) i

/-- Productions take a token at every depth if nothing succeeds at the bottom without taking one. -/
theorem takes_nest (h : Descends body) (hbottom : ∀ i, Takes tokens lo (bottom i) (bottom i))
    (depth : Nat) (i : ι) : Takes tokens lo (nest body bottom depth i)
        (nest body bottom depth i) := by
  induction depth generalizing i with
  | zero => exact hbottom i
  | succ depth ih => exact h.takes (fun i => (ih i).mono (Nat.le_succ lo)) i

end Nesting

/-- The expressions of all levels, given those in them. -/
def levelBody (sub : Level → Parser σ τ) : Level → Parser σ τ
  | .expression => assignment sub
  | .conditional => conditional sub
  | .binary least => binary sub least
  | .unary => unary sub

/-- One level of the expressions reads the next only behind a token. -/
private theorem descends_levelBody : Descends
    (levelBody : (Level → Parser σ τ) → Level → Parser σ τ) := by
  intro tokens lo sub sub' hsub l
  cases l with
  | expression => exact leads_assignment hsub
  | conditional => exact leads_conditional hsub
  | binary least => exact leads_binary hsub least
  | unary => exact leads_unary hsub

/-- The classes of expressions are the nesting of one body, to which the general theorem applies. -/
private theorem level_eq_nest (depth : Nat) :
    (level depth : Level → Parser σ τ) =
      nest levelBody (fun _ => unexpected .expression) depth := by
  induction depth with
  | zero => funext l; rfl
  | succ depth ih =>
    funext l
    rw [nest, ← ih]
    cases l <;> rfl

private theorem takes_unexpected {α : Type} (expected : Expectation) :
    Takes tokens lo (unexpected expected : Parser σ α) (unexpected expected) :=
  fun _ _ => alike_unexpected

private theorem takes_level (depth : Nat) (l : Level) :
    Takes tokens lo (level depth l : Parser σ τ) (level depth l) := by
  rw [level_eq_nest]
  exact takes_nest descends_levelBody (fun _ => takes_unexpected .expression) depth l

private theorem takes_bounded {α : Type} {p : Nat → Parser σ α}
    (h : ∀ depth, Takes tokens lo (p depth) (p depth)) : Takes tokens lo (bounded p) (bounded p) :=
  fun position hle => alike_bounded fun depth => h depth position hle

/-- An expression is read with the tokens that are left, whatever bound its depth has. -/
private theorem takes_expression : Takes tokens lo (expression : Parser σ τ) expression :=
  takes_bounded fun depth => takes_level depth .expression

/-! ## Statements -/

private theorem takes_fragment : Takes tokens lo (fragment : Parser σ τ) fragment := fun _ _ =>
  obeys_currentSpan.leads.bind fun start => leads_simpleName.bind fun _ =>
    obeys_initializer.leads.bind fun _ => (obeys_node start _).leads

private theorem leads_fragments : Leads tokens lo (lo + 1)
    (fragments : Parser σ (List τ)) fragments :=
  leads_commaSeparated takes_fragment

/-- A declaration takes its type before the variables. -/
private theorem leads_localDeclaration : Leads tokens lo (lo + 1)
    (localDeclaration : Parser σ τ) localDeclaration :=
  obeys_currentSpan.leads.bind fun start => obeys_modifiers.leads.bind fun _ =>
    (leads_type false).bind fun _ => obeys_fragments.leads.bind fun _ => (obeys_node start _).leads

private theorem leads_plainStatement : Leads tokens lo (lo + 1)
    (plainStatement : Parser σ τ) plainStatement := by
  refine obeys_currentSpan.leads.bind fun start => obeys_atDeclaration.leads.bind
      fun _ => .ite ?_ ?_
  · exact leads_localDeclaration.bind fun _ => (obeys_expectPunctuator .semicolon).leads.bind
      fun _ =>
      alike_pure fun _ hc => hc
  · exact takes_expression.leads.bind fun _ => (obeys_expectPunctuator .semicolon).leads.bind
      fun _ =>
      (obeys_node start _).leads

private theorem leads_returnStatement : Leads tokens lo (lo + 1)
    (returnStatement : Parser σ τ) returnStatement :=
  (leads_expectKeyword .returnWord).bind fun token =>
    (obeys_optionalExpression .semicolon).leads.bind fun _ =>
      (obeys_expectPunctuator .semicolon).leads.bind fun _ => (obeys_node token.span _).leads

private theorem leads_throwStatement : Leads tokens lo (lo + 1)
    (throwStatement : Parser σ τ) throwStatement :=
  (leads_expectKeyword .throwWord).bind fun token => obeys_expression.leads.bind fun _ =>
    (obeys_expectPunctuator .semicolon).leads.bind fun _ => (obeys_node token.span _).leads

/-- A statement that is a keyword and a semicolon takes both. -/
private theorem leads_keywordStatement (keyword : Keyword) (kind : NodeKind String τ) :
    Leads tokens lo (lo + 1) (keywordStatement keyword kind : Parser σ τ)
      (keywordStatement keyword kind) :=
  (leads_expectKeyword keyword).bind fun token =>
    (obeys_expectPunctuator .semicolon).leads.bind fun _ => (obeys_node token.span _).leads

section Statements

variable {inner inner' : Parser σ τ}

/-- A turn over a block is a statement, which takes a token. -/
private theorem turns_blockStep (h : Takes tokens lo inner inner') :
    Turns tokens lo (blockStep inner) (blockStep inner') := by
  intro position hle statements
  refine (obeys_checkPunctuator .rbrace).leads.bind fun _ => .ite (alike_pure fun _ hc => hc) ?_
  exact (obeys_check .endOfFile).leads.bind fun _ => .ite alike_unexpected
    ((h position hle).bind fun _ => alike_pure fun _ hc => hc)

variable (h : Takes tokens (lo + 1) inner inner')

include h

/-- A block takes its opening brace before the first statement inside. -/
private theorem leads_block : Leads tokens lo (lo + 1) (block inner) (block inner') :=
  (leads_expectPunctuator .lbrace).bind fun token =>
    (leads_repeating (turns_blockStep h) []).bind fun _ =>
      (obeys_expectPunctuator .rbrace).leads.bind fun _ => (obeys_node token.span _).leads

/-- The body of a loop with a head is read behind the keyword and the whole head. -/
private theorem leads_forStatement :
    Leads tokens lo (lo + 1) (forStatement inner) (forStatement inner') := by
  refine (leads_expectKeyword .forWord).bind fun token =>
    (obeys_expectPunctuator .lparen).leads.bind fun _ => obeys_forInitializers.leads.bind fun _ =>
      (obeys_expectPunctuator .semicolon).leads.bind fun _ => ?_
  refine (obeys_optionalExpression .semicolon).leads.bind fun _ =>
    (obeys_expectPunctuator .semicolon).leads.bind fun _ =>
      (obeys_optionalExpressions .rparen).leads.bind fun _ => ?_
  exact (obeys_expectPunctuator .rparen).leads.bind fun _ => h.stays.bind fun _ =>
    (obeys_node token.span _).leads

/-- Both branches of an `if` are read behind its keyword and condition. -/
private theorem leads_ifStatement : Leads tokens lo (lo + 1) (ifStatement inner)
    (ifStatement inner') := by
  refine (leads_expectKeyword .ifWord).bind fun token => obeys_condition.leads.bind fun _ =>
    h.stays.bind fun _ => (obeys_eatKeyword .elseWord).leads.bind fun _ => .ite ?_ ?_
  · exact h.stays.bind fun _ => (obeys_node token.span _).leads
  · exact (obeys_pure _).leads.bind fun _ => (obeys_node token.span _).leads

private theorem leads_whileStatement :
    Leads tokens lo (lo + 1) (whileStatement inner) (whileStatement inner') :=
  (leads_expectKeyword .whileWord).bind fun token => obeys_condition.leads.bind fun _ =>
    h.stays.bind fun _ => (obeys_node token.span _).leads

/-- The body of a `do` is read behind its keyword. -/
private theorem leads_doStatement : Leads tokens lo (lo + 1) (doStatement inner)
    (doStatement inner') :=
  (leads_expectKeyword .doWord).bind fun token => h.stays.bind fun _ =>
    (obeys_expectKeyword .whileWord).leads.bind fun _ => obeys_condition.leads.bind fun _ =>
      (obeys_expectPunctuator .semicolon).leads.bind fun _ => (obeys_node token.span _).leads

/-- A statement takes its first token whatever it is: one case for each keyword that starts one. -/
private theorem leads_statementStep :
    Leads tokens lo (lo + 1) (statementStep inner) (statementStep inner') := by
  refine alike_currentKind fun kind => ?_
  split
  · exact (leads_block h).facing
  · exact .taking nofun (alike_leaf _)
  · exact (leads_ifStatement h).facing
  · exact (leads_whileStatement h).facing
  · exact (leads_doStatement h).facing
  · exact (leads_forStatement h).facing
  · exact leads_returnStatement.facing
  · exact (leads_keywordStatement _ _).facing
  · exact (leads_keywordStatement _ _).facing
  · exact leads_throwStatement.facing
  · exact alike_unsupported
  · exact alike_unsupported
  · exact leads_plainStatement.facing

end Statements

/-- The statements, given those in them. -/
def statementBody (sub : Unit → Parser σ τ) (_ : Unit) : Parser σ τ :=
  statementStep (sub ())

/-- One level of the statements reads the next only behind a token. -/
private theorem descends_statementBody : Descends
    (statementBody : (Unit → Parser σ τ) → Unit → Parser σ τ) :=
  fun hsub _ => leads_statementStep (hsub ())

private theorem statementUpTo_eq_nest (depth : Nat) :
    (statementUpTo depth : Parser σ τ) = nest statementBody (fun _ => unexpected .expression) depth
        () := by
  induction depth with
  | zero => rfl
  | succ depth ih => rw [statementUpTo, ih]; rfl

private theorem takes_statementUpTo (depth : Nat) :
    Takes tokens lo (statementUpTo depth : Parser σ τ) (statementUpTo depth) := by
  rw [statementUpTo_eq_nest]
  exact takes_nest descends_statementBody (fun _ => takes_unexpected .expression) depth ()

/-- A statement is read with the tokens that are left, whatever bound its depth has. -/
private theorem takes_statement : Takes tokens lo (statement : Parser σ τ) statement :=
  takes_bounded takes_statementUpTo

/-! ## Declarations -/

private theorem takes_parameter : Takes tokens lo (parameter : Parser σ τ) parameter := fun _ _ =>
  obeys_currentSpan.leads.bind fun start => obeys_modifiers.leads.bind fun _ =>
    (leads_type false).bind fun _ => (obeys_eatPunctuator .ellipsis).leads.bind fun _ =>
      obeys_simpleName.leads.bind fun _ => (obeys_node start _).leads

private theorem leads_typedMember (modifiers : Modifiers) (start : Span) :
    Leads tokens lo (lo + 1) (typedMember modifiers start : Parser σ τ)
      (typedMember modifiers start) := by
  refine (leads_type true).bind fun type => (obeys_kindAt 1).leads.bind fun _ => .ite ?_ ?_
  · exact obeys_simpleName.leads.bind fun name =>
      (obeys_methodRest modifiers false type name start).leads
  · exact obeys_fragments.leads.bind fun _ => (obeys_expectPunctuator .semicolon).leads.bind
      fun _ =>
      (obeys_node start _).leads

section Members

variable {inner inner' : Parser σ τ}

/-- A turn over a body is a member, which takes a token. -/
private theorem turns_memberStep (h : Takes tokens lo inner inner') :
    Turns tokens lo (memberStep inner) (memberStep inner') := by
  intro position hle members
  refine (obeys_checkPunctuator .rbrace).leads.bind fun _ => .ite (alike_pure fun _ hc => hc) ?_
  refine (obeys_check .endOfFile).leads.bind fun _ => .ite alike_unexpected ?_
  exact alike_eat nofun (alike_pure fun _ hc => hc)
    ((h position hle).bind fun _ => alike_pure fun _ hc => hc)

variable (h : Takes tokens (lo + 1) inner inner')

include h

/-- A class or interface takes its keyword and name before its members are read. -/
private theorem leads_typeDeclaration (modifiers : Modifiers) (start : Span) :
    Leads tokens lo (lo + 1) (typeDeclaration inner modifiers start)
      (typeDeclaration inner' modifiers start) := by
  refine (obeys_eatKeyword .interfaceWord).leads.bind fun interface =>
    .ite ((obeys_expectKeyword .classWord).leads.bind fun _ => ?_) ?_
  all_goals
    refine leads_simpleName.bind fun name => (obeys_eatKeyword .extendsWord).leads.bind fun _ =>
      .ite ((obeys_type false).leads.bind fun superclass => ?_)
        ((obeys_pure _).leads.bind fun superclass => ?_)
  all_goals
    refine (obeys_checkIdentifier "implements").leads.bind fun _ => .ite alike_unsupported ?_
    exact (obeys_expectPunctuator .lbrace).leads.bind fun _ =>
      (leads_repeating (turns_memberStep h) []).bind fun _ =>
        (obeys_expectPunctuator .rbrace).leads.bind fun _ => (obeys_node start _).leads

/-- A member takes a token of its own behind its modifiers. -/
private theorem leads_memberDeclaration :
    Leads tokens lo (lo + 1) (memberDeclaration inner) (memberDeclaration inner') := by
  refine obeys_currentSpan.leads.bind fun start => obeys_modifiers.leads.bind fun modifiers =>
    obeys_currentKind.leads.bind fun kind => ?_
  split
  · exact leads_typeDeclaration h modifiers start
  · exact leads_typeDeclaration h modifiers start
  · exact alike_unsupported
  · refine (obeys_kindAt 1).leads.bind fun _ => .ite ?_ (leads_typedMember modifiers start)
    exact leads_simpleName.bind fun name =>
      (obeys_methodRest modifiers true _ name start).leads

end Members

/-- The members, given those of the types in them. -/
def memberBody (sub : Unit → Parser σ τ) (_ : Unit) : Parser σ τ :=
  memberDeclaration (sub ())

/-- One level of the members reads the next only behind a token. -/
private theorem descends_memberBody : Descends
    (memberBody : (Unit → Parser σ τ) → Unit → Parser σ τ) :=
  fun hsub _ => leads_memberDeclaration (hsub ())

private theorem memberUpTo_eq_nest (depth : Nat) :
    (memberUpTo depth : Parser σ τ) = nest memberBody (fun _ => unexpected .type) depth () := by
  induction depth with
  | zero => rfl
  | succ depth ih => rw [memberUpTo, ih]; rfl

private theorem takes_memberUpTo (depth : Nat) :
    Takes tokens lo (memberUpTo depth : Parser σ τ) (memberUpTo depth) := by
  rw [memberUpTo_eq_nest]
  exact takes_nest descends_memberBody (fun _ => takes_unexpected .type) depth ()

/-- A member is read with the tokens that are left, whatever bound its depth has. -/
private theorem takes_member : Takes tokens lo (member : Parser σ τ) member :=
  takes_bounded takes_memberUpTo

private theorem leads_importDeclaration :
    Leads tokens lo (lo + 1) (importDeclaration : Parser σ τ) importDeclaration := by
  refine (leads_expectKeyword .importWord).bind fun token => Obeys.leads ?_
  refine (obeys_eatKeyword (.modifier .staticFlag)).bind fun _ => obeys_name.bind fun _ =>
    (obeys_checkPunctuator .dot).bind fun _ => (obeys_kindAt 1).bind fun _ => .ite
      (obeys_advance.bind fun _ => obeys_advance.bind fun _ => ?_) ?_
  all_goals exact (obeys_expectPunctuator .semicolon).bind fun _ => obeys_node token.span _

private theorem turns_importStep : Turns tokens lo
    (importStep : List τ → Parser σ (Option (List τ))) importStep := by
  intro position _ imports
  exact (obeys_check _).leads.bind fun _ => .ite
    (leads_importDeclaration.bind fun _ => alike_pure fun _ hc => hc) (alike_pure fun _ hc => hc)

private theorem turns_typeStep : Turns tokens lo
    (typeStep : List τ → Parser σ (Option (List τ))) typeStep := by
  intro position _ types
  refine (obeys_check .endOfFile).leads.bind fun _ => .ite (alike_pure fun _ hc => hc) ?_
  refine alike_eat nofun (alike_pure fun _ hc => hc) ?_
  exact obeys_currentSpan.leads.bind fun start => obeys_modifiers.leads.bind fun modifiers =>
    (leads_typeDeclaration takes_member modifiers start).bind fun _ => alike_pure fun _ hc => hc

/-! ## All productions, loops and nestings -/

/-- An expression of a level, in any depth. -/
def atLevel (l : Level) : Parser σ τ :=
  bounded fun depth => level depth l

/-- The productions that read a part of a source text, as they are asked for and as they call each
other. -/
inductive Production : {α : Type} → Parser σ α → Prop where
  /-- An expression of any level, for instance `expression`. -/
  | atLevel (l : Level) : Production (atLevel l)
  | levelUpTo (depth : Nat) (l : Level) : Production (level depth l)
  /-- An operand with its selectors and the operators after it. -/
  | postfixed : Production (postfixed Grammar.atLevel)
  | postfixedUpTo (depth : Nat) : Production (Grammar.postfixed (level depth))
  | type (allowVoid : Bool) : Production (type allowVoid)
  | name : Production name
  | statement : Production statement
  | statementUpTo (depth : Nat) : Production (statementUpTo depth)
  | block : Production (block Grammar.statement)
  | blockUpTo (depth : Nat) : Production (Grammar.block (Grammar.statementUpTo depth))
  | importDeclaration : Production importDeclaration
  | typeDeclaration (modifiers : Modifiers) (start : Span) :
    Production (typeDeclaration member modifiers start)
  | typeDeclarationUpTo (depth : Nat) (modifiers : Modifiers) (start : Span) :
    Production (Grammar.typeDeclaration (memberUpTo depth) modifiers start)
  | member : Production member
  | memberUpTo (depth : Nat) : Production (memberUpTo depth)
  | parameter : Production parameter
  | fragments : Production fragments

/-- The steps that productions repeat. -/
inductive LoopStep : {α : Type} → (α → Parser σ (Option α)) → Prop where
  | qualifiedName (start : Span) : LoopStep (qualifiedStep start)
  | qualifiedOperand (start : Span) : LoopStep (qualifiedOperandStep start)
  | modifiers : LoopStep modifierStep
  | dimensions (start : Span) : LoopStep (dimensionStep start)
  | arguments (depth : Nat) : LoopStep (commaStep (level depth .expression))
  | selectors (depth : Nat) (start : Span) : LoopStep (selectorStep (level depth) start)
  | postfixOperators (start : Span) : LoopStep (postfixStep start)
  | infixOperators (depth least : Nat) (start : Span) : LoopStep
      (binaryStep (level depth) least start)
  /-- The expressions that a `for` loop starts with or updates. -/
  | expressions : LoopStep (commaStep expression)
  | fragments : LoopStep (commaStep fragment)
  | parameters : LoopStep (commaStep parameter)
  | statements (depth : Nat) : LoopStep (blockStep (statementUpTo depth))
  /-- The statements of the body of a method. -/
  | bodyStatements : LoopStep (blockStep statement)
  | members (depth : Nat) : LoopStep (memberStep (memberUpTo depth))
  /-- The members of a type that is not in another one. -/
  | outerMembers : LoopStep (memberStep member)
  | imports : LoopStep importStep
  | types : LoopStep typeStep

private theorem takes_atLevel (l : Level) : Takes tokens lo (atLevel l : Parser σ τ) (atLevel l) :=
  takes_bounded fun depth => takes_level depth l

/-- Every production that succeeds has taken a token: one case for each, with the bounds on its
nesting and without. -/
theorem Production.leads {α : Type} {p : Parser σ α} (h : Production p) :
    Leads tokens lo (lo + 1) p p := by
  cases h with
  | atLevel l => exact (takes_atLevel l).leads
  | levelUpTo depth l => exact (takes_level depth l).leads
  | postfixed => exact leads_postfixed takes_atLevel
  | postfixedUpTo depth => exact leads_postfixed (takes_level depth)
  | type allowVoid => exact leads_type allowVoid
  | name => exact leads_name
  | statement => exact takes_statement.leads
  | statementUpTo depth => exact (takes_statementUpTo depth).leads
  | block => exact leads_block takes_statement
  | blockUpTo depth => exact leads_block (takes_statementUpTo depth)
  | importDeclaration => exact leads_importDeclaration
  | typeDeclaration modifiers start => exact leads_typeDeclaration takes_member modifiers start
  | typeDeclarationUpTo depth modifiers start =>
    exact leads_typeDeclaration (takes_memberUpTo depth) modifiers start
  | member => exact takes_member.leads
  | memberUpTo depth => exact (takes_memberUpTo depth).leads
  | parameter => exact takes_parameter.leads
  | fragments => exact leads_fragments

/-- Every step that does not decline has taken a token, so a loop ends before its bound does. -/
theorem LoopStep.turns {α : Type} {step : α → Parser σ (Option α)} (h : LoopStep step) :
    Turns tokens lo step step := by
  cases h with
  | qualifiedName start => exact turns_qualifiedStep start
  | qualifiedOperand start => exact turns_qualifiedOperandStep start
  | modifiers => exact turns_modifierStep
  | dimensions start => exact turns_dimensionStep start
  | arguments depth => exact turns_commaStep (takes_level depth .expression)
  | selectors depth start => exact turns_selectorStep (takes_level depth) start
  | postfixOperators start => exact turns_postfixStep start
  | infixOperators depth least start => exact turns_binaryStep (takes_level depth) least start
  | expressions => exact turns_commaStep takes_expression
  | fragments => exact turns_commaStep takes_fragment
  | parameters => exact turns_commaStep takes_parameter
  | statements depth => exact turns_blockStep (takes_statementUpTo depth)
  | bodyStatements => exact turns_blockStep takes_statement
  | members depth => exact turns_memberStep (takes_memberUpTo depth)
  | outerMembers => exact turns_memberStep takes_member
  | imports => exact turns_importStep
  | types => exact turns_typeStep

/-- Reading makes progress from a state that stands at a position in a list of tokens. -/
structure Progress (tokens : List Token) (position : Nat) (s : σ) : Prop where
  /-- A production that succeeds leaves the cursor further on, at most at the last token. -/
  further : ∀ {α : Type} {p : Parser σ α}, Production p → ∀ {a s'}, p.run s = .ok a s' →
    ∃ next, position < next ∧ next ≤ tokens.length - 1 ∧ cursor s' = .after tokens next
  /-- A production that is refused does not leave the cursor further back. -/
  refused : ∀ {α : Type} {p : Parser σ α}, Production p → ∀ {error s'},
    p.run s = .error error s' →
      ∃ next, position ≤ next ∧ next ≤ tokens.length - 1 ∧ cursor s' = .after tokens next
  /-- Looking ahead takes tokens and goes back, and leaves the state as it was. -/
  lookahead : (∃ found, atCast.run s = .ok found s) ∧ ∃ found, atDeclaration.run s = .ok found s
  /-- A loop does what it does without a bound, and makes its step at most once for each token that
  remains. -/
  loops : ∀ {α : Type} {step : α → Parser σ (Option α)}, LoopStep step → ∀ first,
    ∃ count ≤ tokens.length - position,
      Repeats step count first s ((repeating step first).run s)
  /-- Expressions are nested no deeper than the number of tokens that remain: what would be called
  below that does not matter. -/
  expressions : ∀ bottom depth l, tokens.length - position ≤ depth →
    (nest levelBody bottom depth l).run s = (atLevel l : Parser σ τ).run s
  /-- Statements are nested no deeper than that either. -/
  statements : ∀ bottom depth, tokens.length - position ≤ depth →
    (nest statementBody bottom depth ()).run s = (statement : Parser σ τ).run s
  /-- Nor are the members of types. -/
  members : ∀ bottom depth, tokens.length - position ≤ depth →
    (nest memberBody bottom depth ()).run s = (member : Parser σ τ).run s

end JavaFold.Grammar
