import JavaFold.Proofs.Grammar.Clause
import JavaFold.Proofs.Grammar.ReadBack.Expression

/-!
# Statements are read back

The words of a statement are read back as the statement, provided that no `else` follows one that
ends in an `if` without an `else`. A local declaration is told from an expression by the scan over
its modifiers and its type.
-/

namespace JavaFold.Grammar

open Cursor

variable {n : Nat} {S : SourceTree → Prop} {statement : Parser Cursor SourceTree} {rest : List Word}
variable {tree : SourceTree}

/-! ## Declarations and expressions -/

/-- Whether a declaration or an expression can start with a class of words. -/
def startsPlain (kind : TokenKind) : Bool :=
  startsExpression kind || isModifier kind

private theorem isModifier_of_startsExpression {kind : TokenKind}
    (h : startsExpression kind = true) :
    isModifier kind = false := by
  unfold isModifier
  split
  next => cases h
  next => rfl

/-- A type starts as an expression may, so the first word does not tell a declaration from an
expression. -/
theorem IsType.startsExpression {allowVoid : Bool} {type : SourceTree} (h : IsType allowVoid type) :
    startsExpression (headKind type.words) = true := by
  rcases h.words_eq with ⟨_, _, hw⟩ | ⟨_, _, hw, _⟩ <;> rw [hw] <;> rfl

/-- Modifiers start with the keyword of one, if there are any. -/
theorem Modifiers.words_eq_nil_or (modifiers : Modifiers) :
    modifiers.words = [] ∨ ∃ m ws, modifiers.words = .keyword (.modifier m) :: ws := by
  unfold Modifiers.words
  cases modifiers.toList with
  | nil => exact .inl rfl
  | cons m ms => exact .inr ⟨m, _, rfl⟩

/-- A declaration starts with no keyword of a statement. -/
theorem startsPlain_declaration {type : SourceTree} {allowVoid : Bool} (modifiers : Modifiers)
    (ht : IsType allowVoid type) (rest : List Word) :
    startsPlain (headKind (modifiers.words ++ (type.words ++ rest))) = true := by
  rcases Modifiers.words_eq_nil_or modifiers with hm | ⟨m, ws, hm⟩
  · rw [hm, List.nil_append, headKind_append_of_ne_nil ht.words_ne_nil, startsPlain,
      ht.startsExpression, Bool.true_or]
  · rw [hm]
    rfl

private theorem skipModifiers_words (modifiers : Modifiers) {ws : List Word}
    (h : isModifier (headKind ws) = false) : skipModifiers (modifiers.words ++ ws) = ws := by
  rw [Modifiers.words]
  induction modifiers.toList with
  | nil => exact skipModifiers_of_head h
  | cons m ms ih => exact (List.dropWhile_cons_of_pos rfl).trans ih

/-- Modifiers, a type and an identifier read as a declaration. -/
theorem startsDeclaration_declaration (modifiers : Modifiers) {type : SourceTree}
    (ht : IsType false type) (text : String) (rest : List Word) :
    startsDeclaration (modifiers.words ++ (type.words ++ .identifier text :: rest)) = true := by
  have hm : isModifier (headKind (type.words ++ Word.identifier text :: rest)) = false := by
    rw [headKind_append_of_ne_nil ht.words_ne_nil]
    exact isModifier_of_startsExpression ht.startsExpression
  have hs : skipType (type.words ++ Word.identifier text :: rest) =
      some (.identifier text :: rest) := skipType_type_cons ht nofun nofun
  rw [startsDeclaration, skipModifiers_words modifiers hm, hs]
  rfl

/-- An expression that an operator or a separator follows does not read as a declaration. -/
theorem startsDeclaration_expression {w : Word} (h : Opens tree)
    (hw : followsType w.kind = false) :
    startsDeclaration (tree.words ++ w :: rest) = false := by
  have hm : isModifier (headKind (tree.words ++ w :: rest)) = false := by
    rw [h.headKind_append]
    exact isModifier_of_startsExpression h.head
  have hn : NoType (tree.words ++ w :: rest) := h.noType_append hw
  rw [startsDeclaration, skipModifiers_of_head hm]
  split
  next rest' hs => exact beq_false_of_ne (hn rest' hs).2
  next => rfl

/-! ## Local declarations -/

private theorem Opens.headKind_ne (h : Opens tree) {kind : TokenKind}
    (hk : startsExpression kind = false)
    (rest : List Word) : headKind (tree.words ++ rest) ≠ kind := by
  rw [h.headKind_append]
  intro he
  rw [← he, h.head] at hk
  cases hk

/-- A variable is read back, with its value or without. -/
private theorem outcome_fragment (h : IsFragment tree)
    (hrest : stops .expression (headKind rest) = true) :
    fragment.outcome (reading (tree.words ++ rest)) = some (tree.bare, reading rest) := by
  obtain ⟨span, hn, hi⟩ := h
  obtain ⟨span', text⟩ := hn
  rcases hi with rfl | hi
  · have heq : headKind rest ≠ .punctuator .eq := by
      intro he
      rw [he] at hrest
      cases hrest
    simp [fragment, initializer, Tree.words, Tree.isPresent, heq]
    rfl
  · have hread := outcome_expression hi rest hrest
    have hbrace : headKind (_ ++ rest) ≠ .punctuator .lbrace := hi.opens.headKind_ne rfl rest
    simp [fragment, initializer, Tree.words, hi.opens.isPresent, Word.kind, hbrace, hread]
    rfl

/-- In a row with commas, most trees are written as they are. -/
theorem wordsRow_eq_plain {form : Form} {trees : List SourceTree}
    (hs : form.separatorWords = [.punctuator .comma])
    (hp : ∀ t ∈ trees, form.placeWords t.tag? t.words = t.words) :
    Tree.wordsRow form trees = Tree.wordsRow .plain trees := by
  induction trees with
  | nil => rfl
  | cons tree trees ih =>
    have htail := ih fun t ht => hp t (List.mem_cons_of_mem _ ht)
    rw [Tree.wordsRow, Tree.wordsRow, hs, htail, hp tree List.mem_cons_self]
    rfl

/-- The variables of a declaration are read back up to the semicolon. -/
theorem outcome_fragments {fragments : List SourceTree} (hne : fragments ≠ [])
    (hf : ∀ f ∈ fragments, IsFragment f) (rest : List Word) (hrest : headKind rest =
        .punctuator .semicolon) :
    Grammar.fragments.outcome (reading (Tree.wordsRow .fragment fragments ++ rest)) =
      some (fragments.map Tree.bare, reading rest) := by
  obtain ⟨first, others, rfl⟩ := List.exists_cons_of_ne_nil hne
  rw [wordsRow_eq_plain rfl fun _ _ => rfl]
  refine outcome_commaSeparated (fun t ht rest' hrest' => outcome_fragment (hf t ht) ?_) ?_
  · rcases hrest' with h | rfl
    · rw [h]
      rfl
    · rw [hrest]
      rfl
  · rw [hrest]
    nofun

/-- The modifiers before a type are read back. -/
theorem outcome_modifiers_type (modifiers : Modifiers) {allowVoid : Bool} {type : SourceTree}
    (ht : IsType allowVoid type) (rest : List Word) :
    Grammar.modifiers.outcome (reading (modifiers.words ++ (type.words ++ rest))) =
      some (modifiers, reading (type.words ++ rest)) := by
  apply outcome_modifiers
  rw [headKind_append_of_ne_nil ht.words_ne_nil]
  exact isModifier_of_startsExpression ht.startsExpression

/-- The first words of declared variables: a name that is not called. -/
theorem wordsRow_fragment_eq {fragments : List SourceTree} (hne : fragments ≠ [])
    (hf : ∀ f ∈ fragments, IsFragment f) :
    ∃ text ws, Tree.wordsRow .fragment fragments = .identifier text :: ws ∧
      ∀ rest, headKind rest ≠ .punctuator .lparen →
        headKind (ws ++ rest) ≠ .punctuator .lparen := by
  obtain ⟨first, others, rfl⟩ := List.exists_cons_of_ne_nil hne
  obtain ⟨span, hn, hi⟩ := hf first List.mem_cons_self
  obtain ⟨span', text⟩ := hn
  rw [wordsRow_eq_plain rfl fun _ _ => rfl, Tree.wordsRow_plain_cons]
  refine ⟨text, _, rfl, fun rest hrest => ?_⟩
  rcases hi with rfl | hi
  · cases others with
    | nil => exact hrest
    | cons next others => nofun
  · rw [hi.opens.isPresent]
    nofun

/-- A local declaration is read back up to its semicolon. -/
theorem outcome_localDeclaration (modifiers : Modifiers) {type : SourceTree}
    {fragments : List SourceTree} (ht : IsType false type) (hne : fragments ≠ [])
    (hf : ∀ f ∈ fragments, IsFragment f) (rest : List Word)
    (hrest : headKind rest = .punctuator .semicolon) :
    localDeclaration.outcome (reading (modifiers.words ++
        (type.words ++ (Tree.wordsRow .fragment fragments ++ rest)))) =
      some (.node .nowhere (.variableDeclarationStatement modifiers type.bare
        (fragments.map Tree.bare)), reading rest) := by
  obtain ⟨text, ws, hw, -⟩ := wordsRow_fragment_eq hne hf
  have hfragments := outcome_fragments hne hf rest hrest
  have hstart : headKind (Tree.wordsRow .fragment fragments ++ rest) = .identifier := by
    rw [hw]
    rfl
  have htype := outcome_type ht (Tree.wordsRow .fragment fragments ++ rest)
    (stopsName_of_head (by rw [hstart]; nofun)) (stopsDimensions_of_head (by rw [hstart]; nofun))
  have hmodifiers := outcome_modifiers_type modifiers ht
    (Tree.wordsRow .fragment fragments ++ rest)
  simp [localDeclaration, hmodifiers, htype, hfragments]

/-! ## Parts of statements -/

private theorem outcome_condition (h : IsExpression tree) (rest : List Word) :
    condition.outcome (reading
        (.punctuator .lparen :: (tree.words ++ .punctuator .rparen :: rest))) =
      some (tree.bare, reading rest) := by
  have hread := outcome_expression h (.punctuator .rparen :: rest) rfl
  simp [condition, hread]

/-- Whether optional expressions can end before a punctuator. -/
def closesExpressions (stop : Punctuator) : Bool :=
  stops .expression (.punctuator stop) && !startsExpression (.punctuator stop) && stop != .comma

private theorem outcome_optionalExpression (stop : Punctuator) (hs : closesExpressions stop = true)
    (h : IsOptional IsExpression tree) (rest : List Word) :
    (optionalExpression stop).outcome (reading (tree.words ++ .punctuator stop :: rest)) =
      some (tree.bare, reading (.punctuator stop :: rest)) := by
  simp only [closesExpressions, Bool.and_eq_true, Bool.not_eq_true'] at hs
  rcases h with rfl | h
  · simp [optionalExpression, Tree.words, Word.kind]
  · have hread := outcome_expression h (.punctuator stop :: rest) hs.1.1
    have hhead := h.opens.headKind_ne hs.1.2 (.punctuator stop :: rest)
    simp [optionalExpression, hhead, hread]

private theorem outcome_commaSeparated_expression (stop : Punctuator) {trees : List SourceTree}
    (hs : closesExpressions stop = true) (h : ∀ t ∈ tree :: trees, IsExpression t)
    (rest : List Word) :
    (commaSeparated expression).outcome
        (reading (Tree.wordsRow .plain (tree :: trees) ++ .punctuator stop :: rest)) =
      some ((tree :: trees).map Tree.bare, reading (.punctuator stop :: rest)) := by
  simp only [closesExpressions, Bool.and_eq_true, bne_iff_ne] at hs
  refine outcome_commaSeparated (fun t ht rest' hrest => outcome_expression (h t ht) rest' ?_) ?_
  · rcases hrest with hk | rfl
    · rw [hk]
      rfl
    · exact hs.1.1
  · intro hk
    cases hk
    exact hs.2 rfl

private theorem headKind_wordsRow_plain {trees : List SourceTree} (h : Opens tree)
    (rest : List Word) :
    headKind (Tree.wordsRow .plain (tree :: trees) ++ rest) = headKind tree.words := by
  rw [Tree.wordsRow_plain_cons, List.append_assoc, h.headKind_append]

/-- A list of expressions that may be empty is read back up to the token that closes it. -/
private theorem outcome_optionalExpressions (stop : Punctuator) {trees : List SourceTree}
    (hs : closesExpressions stop = true) (h : ∀ t ∈ trees, IsExpression t) (rest : List Word) :
    (optionalExpressions stop).outcome
        (reading (Tree.wordsRow .plain trees ++ .punctuator stop :: rest)) =
      some (trees.map Tree.bare, reading (.punctuator stop :: rest)) := by
  cases trees with
  | nil => simp [optionalExpressions, Tree.wordsRow, Word.kind]
  | cons tree trees =>
    have hread := outcome_commaSeparated_expression stop hs h rest
    have hopens := (h tree List.mem_cons_self).opens
    have hhead : headKind (Tree.wordsRow .plain (tree :: trees) ++ .punctuator stop :: rest) ≠
        .punctuator stop := by
      simp only [closesExpressions, Bool.and_eq_true, Bool.not_eq_true'] at hs
      rw [headKind_wordsRow_plain hopens]
      intro he
      rw [← he, hopens.head] at hs
      cases hs.1.2
    simp [optionalExpressions, hhead, hread]

/-- An expression is no declaration. -/
theorem IsExpression.tag?_ne (h : IsExpression tree) :
    tree.tag? ≠ some .variableDeclarationStatement := by
  obtain ⟨depth, h⟩ := h
  cases depth with
  | zero => cases h
  | succ depth =>
    intro ht
    match tree, ht, h with
    | .node _ (.variableDeclarationStatement ..), _, h => exact absurd h nofun

/-- An expression at the head of a loop is written without a semicolon, as it is anywhere. -/
theorem placeWords_expression (h : IsExpression tree) :
    Form.initializer.placeWords tree.tag? tree.words = tree.words := by
  unfold Form.placeWords
  split
  next ht => exact absurd ‹tree.tag? = _› h.tag?_ne
  next => rfl

/-- What a `for` loop starts with is read back. -/
theorem outcome_forInitializers {initializers : List SourceTree} (h : IsInitializers initializers)
    (rest : List Word) :
    forInitializers.outcome (reading (Tree.wordsRow .initializer initializers ++
        .punctuator .semicolon :: rest)) =
      some (initializers.map Tree.bare, reading (.punctuator .semicolon :: rest)) := by
  cases h with
  | declaration h =>
    obtain ⟨span, modifiers, ht, hne, hf⟩ := h
    obtain ⟨text, ws, hw, -⟩ := wordsRow_fragment_eq hne hf
    have hread := outcome_localDeclaration modifiers ht hne hf (.punctuator .semicolon :: rest) rfl
    have hdecl := startsDeclaration_declaration modifiers ht text (ws ++ .punctuator .semicolon ::
      rest)
    rw [← List.cons_append, ← hw] at hdecl
    simp [forInitializers, Tree.wordsRow, Form.placeWords, Tree.tag?, NodeKind.tag, Tree.words,
      hdecl, hread, Word.kind, Tree.bare_node]
    rfl
  | expressions h =>
    rw [wordsRow_eq_plain rfl fun t ht => placeWords_expression (h t ht)]
    cases initializers with
    | nil =>
      have hnone : startsDeclaration (.punctuator .semicolon :: rest) = false := rfl
      simp [forInitializers, Tree.wordsRow, hnone, Word.kind]
    | cons first others =>
      have hread := outcome_commaSeparated_expression .semicolon rfl h rest
      have hopens := (h first List.mem_cons_self).opens
      have hdecl : startsDeclaration (Tree.wordsRow .plain (first :: others) ++
          .punctuator .semicolon :: rest) = false := by
        rw [Tree.wordsRow_plain_cons, List.append_assoc]
        cases others with
        | nil =>
          rw [List.flatMap_nil, List.nil_append]
          exact startsDeclaration_expression hopens rfl
        | cons next others =>
          rw [List.flatMap_cons, List.cons_append, List.cons_append]
          exact startsDeclaration_expression hopens rfl
      have hhead : headKind (Tree.wordsRow .plain (first :: others) ++
          .punctuator .semicolon :: rest) ≠ .punctuator .semicolon := by
        rw [headKind_wordsRow_plain hopens]
        intro he
        have := hopens.head
        rw [he] at this
        cases this
      simp [forInitializers, hdecl, hhead, hread]

/-! ## Blocks -/

/-- What is known of the front of the words of a statement. -/
structure OpensStatement (tree : SourceTree) : Prop where
  /-- There is a statement. -/
  present : tree.isPresent = true
  /-- It has words. -/
  words_ne_nil : tree.words ≠ []
  /-- It does not close a block. -/
  head_ne_rbrace : headKind tree.words ≠ .punctuator .rbrace
  /-- It is no alternative. -/
  head_ne_else : headKind tree.words ≠ .keyword .elseWord

/-- The production of statements reads back the statements of at most `n` words, except that an
`else` belongs to the `if` before it. -/
def CompleteStatements (n : Nat) (S : SourceTree → Prop) (statement : Parser Cursor SourceTree) :
    Prop :=
  ∀ tree rest, S tree → tree.words.length ≤ n →
    (tree.endsOpen = true → headKind rest ≠ .keyword .elseWord) →
      statement.outcome (reading (tree.words ++ rest)) = some (tree.bare, reading rest)

/-- In a row without separators, the words follow each other. -/
theorem wordsRow_eq_flatMap (form : Form) (hs : form.separatorWords = [])
    (hp : ∀ tag? ws, form.placeWords tag? ws = ws) (trees : List SourceTree) :
    Tree.wordsRow form trees = trees.flatMap Tree.words := by
  induction trees with
  | nil => rfl
  | cons tree trees ih =>
    rw [Tree.wordsRow, hs, hp, ih, List.flatMap_cons]
    simp

/-- Statements in a row are read one after the other. -/
theorem loops_blockStep (hc : CompleteStatements n S statement)
    (hS : ∀ t, S t → OpensStatement t) {statements : List SourceTree}
    (h : ∀ s ∈ statements, S s) (hn : (statements.flatMap Tree.words).length ≤ n)
    (found : List SourceTree) (rest : List Word) :
    Loops (blockStep statement) found
      (statements.flatMap Tree.words ++ .punctuator .rbrace :: rest)
      (found ++ statements.map Tree.bare) (.punctuator .rbrace :: rest) := by
  induction statements generalizing found with
  | nil =>
    rw [List.map_nil, List.append_nil]
    exact .refl
  | cons tree statements ih =>
    have hopens := hS tree (h tree List.mem_cons_self)
    have htail : ∀ s ∈ statements, S s := fun s hs => h s (List.mem_cons_of_mem _ hs)
    rw [List.flatMap_cons, List.length_append] at hn
    have hl := ih htail (by omega) (found ++ [tree.bare])
    rw [List.append_assoc, List.singleton_append] at hl
    have hnext : headKind (statements.flatMap Tree.words ++ .punctuator .rbrace :: rest) ≠
        .keyword .elseWord := by
      cases statements with
      | nil => nofun
      | cons next others =>
        have hnext := hS next (htail next List.mem_cons_self)
        rw [List.flatMap_cons, List.append_assoc, headKind_append_of_ne_nil hnext.words_ne_nil]
        exact hnext.head_ne_else
    have hread := hc tree (statements.flatMap Tree.words ++ .punctuator .rbrace :: rest)
      (h tree List.mem_cons_self) (by omega) fun _ => hnext
    have hhead : headKind (tree.words ++ (statements.flatMap Tree.words ++
        .punctuator .rbrace :: rest)) = headKind tree.words :=
      headKind_append_of_ne_nil hopens.words_ne_nil
    have heof : headKind tree.words ≠ .endOfFile := by
      obtain ⟨w, ws, hw⟩ := List.exists_cons_of_ne_nil hopens.words_ne_nil
      rw [hw]
      exact w.kind_ne_endOfFile
    rw [List.flatMap_cons, List.append_assoc]
    refine .head ?_ ?_ hl
    · simp [blockStep, hhead, hopens.head_ne_rbrace, heof, hread]
    · have := List.length_pos_iff.2 hopens.words_ne_nil
      simp only [List.length_append, List.length_cons]
      omega

/-- A block is read back. -/
theorem outcome_block (hc : CompleteStatements n S statement) (hS : ∀ t, S t → OpensStatement t)
    (h : IsBlock S tree) (hn : tree.words.length ≤ n + 1) (rest : List Word) :
    (block statement).outcome (reading (tree.words ++ rest)) = some (tree.bare, reading rest) := by
  obtain ⟨span, h⟩ := h
  rw [Tree.words, wordsRow_eq_flatMap .line rfl fun _ _ => rfl] at hn
  simp only [List.length_append, List.length_cons, List.length_nil] at hn
  have hl := loops_blockStep hc hS h (by omega) [] rest
  have hstop (found : List SourceTree) : (blockStep statement found).outcome
      (reading (.punctuator .rbrace :: rest)) =
        some (none, reading (.punctuator .rbrace :: rest)) := by
    simp [blockStep, Word.kind]
  have hread := outcome_repeating_of_loops hl (hstop _)
  rw [Tree.words, wordsRow_eq_flatMap .line rfl fun _ _ => rfl]
  simp [block, hread, Tree.bare_node]
  rfl

/-! ## Every statement -/

/-- A statement opens as one if its first word neither closes a block nor continues an `if`. -/
theorem OpensStatement.of_head {w : Word} {ws : List Word} (hp : tree.isPresent = true)
    (hw : tree.words = w :: ws) (hb : w.kind ≠ .punctuator .rbrace)
    (he : w.kind ≠ .keyword .elseWord) : OpensStatement tree :=
  ⟨hp, by rw [hw]; exact List.cons_ne_nil _ _, by rw [hw]; exact hb, by rw [hw]; exact he⟩

private theorem OpensStatement.of_startsPlain (hp : tree.isPresent = true)
    (h : startsPlain (headKind tree.words) = true) : OpensStatement tree := by
  refine ⟨hp, ?_, ?_, ?_⟩ <;> intro he <;> rw [he] at h <;> cases h

/-- A declaration starts with no keyword of a statement. -/
theorem IsLocalDeclaration.startsPlain (h : IsLocalDeclaration tree) :
    startsPlain (headKind tree.words) = true := by
  obtain ⟨span, modifiers, ht, hne, hf⟩ := h
  rw [Tree.words, List.append_assoc, List.append_assoc]
  exact startsPlain_declaration modifiers ht _

private theorem startsPlain_expression (h : IsExpression tree) (rest : List Word) :
    startsPlain (headKind (tree.words ++ rest)) = true := by
  rw [h.opens.headKind_append, startsPlain, h.opens.head, Bool.true_or]

/-- A statement of any form opens as one. -/
theorem IsStatementOf.opens (h : IsStatementOf S tree) : OpensStatement tree := by
  cases h with
  | block h =>
    obtain ⟨span, h⟩ := h
    exact .of_head rfl rfl nofun nofun
  | empty | ifThen | whileLoop | doLoop | returnValue | breakLoop | continueLoop | throwValue |
    ifThenElse | forLoop => exact .of_head rfl rfl nofun nofun
  | expression span h => exact .of_startsPlain rfl (startsPlain_expression h _)
  | declaration h =>
    have hplain := h.startsPlain
    obtain ⟨span, modifiers, ht, hne, hf⟩ := h
    exact .of_startsPlain rfl hplain

private theorem outcome_statementStep_plain {ws : List Word}
    (h : startsPlain (headKind ws) = true) :
    (statementStep statement).outcome (reading ws) = plainStatement.outcome (reading ws) := by
  simp only [statementStep, outcome_bind, outcome_currentKind, Option.bind_some]
  split <;> first | rfl | (rename_i hk; rw [hk] at h; cases h)

/-- An expression with its semicolon is no declaration. -/
theorem outcome_plainStatement_expression {expression : SourceTree} (h : IsExpression expression) :
    plainStatement.outcome (reading (expression.words ++ .punctuator .semicolon :: rest)) =
      some (.node .nowhere (.expressionStatement expression.bare), reading rest) := by
  have hread := outcome_expression h (.punctuator .semicolon :: rest) rfl
  have hdecl : startsDeclaration (expression.words ++ .punctuator .semicolon :: rest) = false :=
    startsDeclaration_expression h.opens rfl
  simp [plainStatement, hdecl, hread]

/-- A local declaration with its semicolon is no expression. -/
theorem outcome_plainStatement_declaration (h : IsLocalDeclaration tree) :
    plainStatement.outcome (reading (tree.words ++ rest)) = some (tree.bare, reading rest) := by
  obtain ⟨span, modifiers, ht, hne, hf⟩ := h
  obtain ⟨text, ws, hw, -⟩ := wordsRow_fragment_eq hne hf
  have hread := outcome_localDeclaration modifiers ht hne hf (.punctuator .semicolon :: rest) rfl
  have hdecl := startsDeclaration_declaration modifiers ht text (ws ++ .punctuator .semicolon ::
    rest)
  rw [← List.cons_append, ← hw] at hdecl
  simp [plainStatement, Tree.words, hdecl, hread, Tree.bare_node]
  rfl

section

variable (span : Span) {condition thenStatement elseStatement body : SourceTree}

/-- Without an alternative, none may follow. -/
theorem outcome_ifThen (hc : CompleteStatements n S statement) (hcond : IsExpression condition)
    (ht : S thenStatement) (hn : thenStatement.words.length ≤ n)
    (helse : headKind rest ≠ .keyword .elseWord) :
    (ifStatement statement).outcome
        (reading ((Tree.node span (.ifStatement condition thenStatement .absent)).words ++ rest)) =
      some ((Tree.node span (.ifStatement condition thenStatement .absent)).bare,
          reading rest) := by
  have hcondition := outcome_condition hcond (thenStatement.words ++ rest)
  have hread := hc thenStatement rest ht hn fun _ => helse
  simp [Tree.words, Tree.isPresent, ifStatement, hcondition, hread, helse]
  rfl

/-- The alternative belongs to this condition, since the statement before it is closed. -/
theorem outcome_ifThenElse (hc : CompleteStatements n S statement)
    (hcond : IsExpression condition) (ht : S thenStatement) (ho : thenStatement.endsOpen = false)
    (he : S elseStatement) (hp : elseStatement.isPresent = true)
    (hthen : thenStatement.words.length ≤ n) (helse : elseStatement.words.length ≤ n)
    (hrest : elseStatement.endsOpen = true → headKind rest ≠ .keyword .elseWord) :
    (ifStatement statement).outcome (reading
        ((Tree.node span (.ifStatement condition thenStatement elseStatement)).words ++ rest)) =
      some ((Tree.node span (.ifStatement condition thenStatement elseStatement)).bare,
        reading rest) := by
  have hcondition := outcome_condition hcond (thenStatement.words ++
    .keyword .elseWord :: (elseStatement.words ++ rest))
  have hfirst := hc thenStatement (.keyword .elseWord :: (elseStatement.words ++ rest)) ht hthen
    (by simp [ho])
  have hsecond := hc elseStatement rest he helse hrest
  simp [Tree.words, hp, Word.kind, ifStatement, hcondition, hfirst, hsecond]
  rfl

private theorem outcome_whileStatement (hc : CompleteStatements n S statement)
    (hcond : IsExpression condition) (hb : S body) (hn : body.words.length ≤ n)
    (hrest : body.endsOpen = true → headKind rest ≠ .keyword .elseWord) :
    (whileStatement statement).outcome
        (reading ((Tree.node span (.whileStatement condition body)).words ++ rest)) =
      some ((Tree.node span (.whileStatement condition body)).bare, reading rest) := by
  have hcondition := outcome_condition hcond (body.words ++ rest)
  have hread := hc body rest hb hn hrest
  simp [Tree.words, whileStatement, hcondition, hread]
  rfl

/-- The body of a loop that ends with its condition is followed by `while`. -/
theorem outcome_doStatement (hc : CompleteStatements n S statement) (hcond : IsExpression condition)
    (hb : S body) (hn : body.words.length ≤ n) (rest : List Word) :
    (doStatement statement).outcome
        (reading ((Tree.node span (.doStatement body condition)).words ++ rest)) =
      some ((Tree.node span (.doStatement body condition)).bare, reading rest) := by
  have hcondition := outcome_condition hcond (.punctuator .semicolon :: rest)
  have hread := hc body (.keyword .whileWord :: .punctuator .lparen :: (condition.words ++
    .punctuator .rparen :: .punctuator .semicolon :: rest)) hb hn (by rintro - ⟨⟩)
  simp [Tree.words, doStatement, hcondition, hread]
  rfl

private theorem outcome_forStatement {initializers updaters : List SourceTree}
    (hc : CompleteStatements n S statement) (hi : IsInitializers initializers)
    (hcond : IsOptional IsExpression condition) (hu : ∀ u ∈ updaters, IsExpression u) (hb : S body)
    (hn : body.words.length ≤ n)
    (hrest : body.endsOpen = true → headKind rest ≠ .keyword .elseWord) :
    (forStatement statement).outcome (reading
        ((Tree.node span (.forStatement initializers condition updaters body)).words ++ rest)) =
      some ((Tree.node span (.forStatement initializers condition updaters body)).bare,
        reading rest) := by
  have hinit := outcome_forInitializers hi (condition.words ++ .punctuator .semicolon ::
    (Tree.wordsRow .plain updaters ++ .punctuator .rparen :: (body.words ++ rest)))
  have hcondition := outcome_optionalExpression .semicolon rfl hcond
    (Tree.wordsRow .plain updaters ++ .punctuator .rparen :: (body.words ++ rest))
  have hupdaters := outcome_optionalExpressions .rparen rfl hu (body.words ++ rest)
  have hread := hc body rest hb hn hrest
  simp [Tree.words, forStatement, hinit, hcondition, hupdaters, hread, Tree.bare_node]
  rfl

end

/-- A statement is read back. -/
theorem outcome_statementStep (hc : CompleteStatements n S statement)
    (hS : ∀ t, S t → OpensStatement t) (h : IsStatementOf S tree)
    (hn : tree.words.length ≤ n + 1)
    (hrest : tree.endsOpen = true → headKind rest ≠ .keyword .elseWord) :
    (statementStep statement).outcome (reading (tree.words ++ rest)) =
      some (tree.bare, reading rest) := by
  cases h with
  | block h =>
    have hread := outcome_block hc hS h hn rest
    obtain ⟨span, h⟩ := h
    simpa [statementStep, Tree.words, Word.kind] using hread
  | empty span =>
    simp [statementStep, Tree.words, Word.kind, leaf]
    rfl
  | expression span h =>
    rw [Tree.words, List.append_assoc, outcome_statementStep_plain (startsPlain_expression h _)]
    exact outcome_plainStatement_expression h
  | declaration h =>
    have hopens := OpensStatement.of_startsPlain (by cases h; rfl) h.startsPlain
    rw [outcome_statementStep_plain
      (headKind_append_of_ne_nil hopens.words_ne_nil ▸ h.startsPlain)]
    exact outcome_plainStatement_declaration h
  | ifThen span hcond ht =>
    simp only [Tree.words, Tree.isPresent, List.length_append, List.length_cons] at hn
    have hread := outcome_ifThen span hc hcond ht (by omega) (hrest rfl)
    simpa [statementStep, Tree.words, Word.kind] using hread
  | ifThenElse span hcond ht ho he =>
    have hp := (hS _ he).present
    simp only [Tree.words, hp, if_true, List.length_append, List.length_cons] at hn
    have hread := outcome_ifThenElse span hc hcond ht ho he hp (by omega) (by omega) fun h => hrest
        (by
      rw [Tree.endsOpen, h, Bool.or_true])
    simpa [statementStep, Tree.words, Word.kind] using hread
  | whileLoop span hcond hb =>
    simp only [Tree.words, List.length_append, List.length_cons] at hn
    have hread := outcome_whileStatement span hc hcond hb (by omega) fun h => hrest (by
      rw [Tree.endsOpen, h])
    simpa [statementStep, Tree.words, Word.kind] using hread
  | doLoop span hb hcond =>
    simp only [Tree.words, List.length_append, List.length_cons] at hn
    have hread := outcome_doStatement span hc hcond hb (by omega) rest
    simpa [statementStep, Tree.words, Word.kind] using hread
  | forLoop span hi hcond hu hb =>
    simp only [Tree.words, List.length_append, List.length_cons] at hn
    have hread := outcome_forStatement span hc hi hcond hu hb (by omega) fun h => hrest (by
      rw [Tree.endsOpen, h])
    simpa [statementStep, Tree.words, Word.kind] using hread
  | returnValue span h =>
    have hread := outcome_optionalExpression .semicolon rfl h rest
    simp [statementStep, Tree.words, Word.kind, returnStatement, hread]
    rfl
  | breakLoop span | continueLoop span =>
    simp [statementStep, Tree.words, Word.kind, keywordStatement]
    rfl
  | throwValue span h =>
    have hread := outcome_expression h (.punctuator .semicolon :: rest) rfl
    simp [statementStep, Tree.words, Word.kind, throwStatement, hread]
    rfl

/-- A statement of any depth opens as one. -/
theorem statementFits_opens {depth : Nat} (h : StatementFits depth tree) : OpensStatement tree := by
  cases depth with
  | zero => cases h
  | succ depth => exact IsStatementOf.opens h

/-- A depth of the number of words suffices to read back a statement. -/
theorem completeStatements_statementUpTo (depth d : Nat) :
    CompleteStatements depth (StatementFits d) (statementUpTo depth) := by
  induction depth generalizing d with
  | zero =>
    intro tree rest h hn
    exact absurd (List.length_eq_zero_iff.1 (Nat.le_zero.1 hn)) (statementFits_opens h).words_ne_nil
  | succ depth ih =>
    intro tree rest h hn hrest
    cases d with
    | zero => cases h
    | succ d => exact outcome_statementStep (ih d) (fun _ => statementFits_opens) h hn hrest

/-- A statement is read back. -/
theorem outcome_statement (h : IsStatement tree) (rest : List Word)
    (hrest : tree.endsOpen = true → headKind rest ≠ .keyword .elseWord) :
    Grammar.statement.outcome (reading (tree.words ++ rest)) = some (tree.bare, reading rest) := by
  obtain ⟨d, hd⟩ := h
  rw [Grammar.statement, bounded, outcome_bind, outcome_place, Option.bind_some]
  exact completeStatements_statementUpTo _ d tree rest hd (by simp; omega) hrest

end JavaFold.Grammar
