import JavaFold.Proofs.Grammar.ReadBack.Type

/-!
# Expressions are read back

The words of an expression are read back as the expression if what follows does not continue it
(`stops`). Productions call each other on shorter rows of words, so the statement is carried from
the inner productions to the outer ones (`Complete.next`). Operands joined to the left are read by a
repeated step, which is followed along the left spine of the tree.
-/

namespace JavaFold.Grammar

open Cursor

variable {n : Nat} {S : Phrases} {sub : Level → Parser Cursor SourceTree} {rest : List Word}
variable {tree : SourceTree}

/-! ## What may follow -/

/-- Whether an operand ends before a class of words. -/
def stopsOperand : TokenKind → Bool
  | .punctuator .dot | .punctuator .lbracket | .punctuator .lparen | .punctuator .lbrace
  | .punctuator .plusPlus | .punctuator .minusMinus | .punctuator .bang | .punctuator .tilde =>
      false
  | .punctuator _ | .endOfFile | .keyword .instanceofWord => true
  | _ => false

/-- Whether operands joined by infix operators of at least the precedence `least` end before a class
of words. -/
def stopsBinary (least : Nat) (kind : TokenKind) : Bool :=
  stopsOperand kind && !(kind == .keyword .instanceofWord && least ≤ instanceofPrecedence) &&
    !(kind.punctuator?.bind Punctuator.infixOperator?).any (least ≤ ·.precedence)

/-- Whether an expression of a level ends before a class of words. -/
def stops : Level → TokenKind → Bool
  | .unary, kind => stopsOperand kind
  | .binary least, kind => stopsBinary least kind
  | .conditional, kind => stopsBinary 1 kind && kind != .punctuator .question
  | .expression, kind =>
    stopsBinary 1 kind && kind != .punctuator .question &&
      (kind.punctuator?.bind Punctuator.assignmentOperator?).isNone

/-- The productions of every level read back the trees of at most `n` words. -/
def Complete (n : Nat) (S : Phrases) (sub : Level → Parser Cursor SourceTree) : Prop :=
  ∀ level tree rest, S level tree → tree.words.length ≤ n → stops level (headKind rest) = true →
    (sub level).outcome (reading (tree.words ++ rest)) = some (tree.bare, reading rest)

/-- A token ends a chain of operators of some precedence if it is no operator or one that binds
less. -/
private theorem stopsBinary_iff {least : Nat} {kind : TokenKind} :
    stopsBinary least kind = true ↔ stopsOperand kind = true ∧
      (kind = .keyword .instanceofWord → instanceofPrecedence < least) ∧
      ∀ operator : InfixOperator, kind = .punctuator operator.punctuator →
        operator.precedence < least := by
  rw [stopsBinary, Bool.and_eq_true, Bool.and_eq_true, and_assoc]
  refine and_congr_right fun _ => and_congr ?_ ?_
  · simp [imp_iff_not_or]
  · rw [Bool.not_eq_true', Option.any_eq_false]
    constructor
    · intro h operator hk
      have := h operator (TokenKind.punctuator?_bind_eq_some.2
        ⟨_, hk, Punctuator.infixOperator?_eq_some.2 rfl⟩)
      simpa using this
    · intro h operator ho
      obtain ⟨p, hk, hp⟩ := TokenKind.punctuator?_bind_eq_some.1 ho
      cases Punctuator.infixOperator?_eq_some.1 hp
      simpa using h operator hk

private theorem stopsBinary_mono {least least' : Nat} {kind : TokenKind} (hle : least ≤ least')
    (h : stopsBinary least kind = true) : stopsBinary least' kind = true := by
  obtain ⟨ho, hi, hp⟩ := stopsBinary_iff.1 h
  exact stopsBinary_iff.2
    ⟨ho, fun hk => Nat.lt_of_lt_of_le (hi hk) hle, fun op hk => Nat.lt_of_lt_of_le (hp op hk) hle⟩

private theorem startsCastOperand_of_stopsOperand {kind : TokenKind}
    (h : stopsOperand kind = true) :
    startsCastOperand kind = false := by
  unfold startsCastOperand
  split <;> first | rfl | cases h

/-! ## Rows -/

private theorem length_words_le_of_mem {trees : List SourceTree} (h : tree ∈ trees) :
    tree.words.length ≤ (Tree.wordsRow .plain trees).length := by
  induction trees with
  | nil => cases h
  | cons next trees ih =>
    simp only [Tree.wordsRow, Form.placeWords, List.length_append]
    rcases List.mem_cons.1 h with rfl | h
    · omega
    · have := ih h
      omega

/-- Items with commas between them are read back if each of them is. -/
theorem outcome_commaSeparated {item : Parser Cursor SourceTree} {trees : List SourceTree}
    (hitem : ∀ t ∈ tree :: trees, ∀ rest', (headKind rest' = .punctuator .comma ∨ rest' = rest) →
      item.outcome (reading (t.words ++ rest')) = some (t.bare, reading rest'))
    (hrest : headKind rest ≠ .punctuator .comma) :
    (commaSeparated item).outcome (reading (Tree.wordsRow .plain (tree :: trees) ++ rest)) =
      some ((tree :: trees).map Tree.bare, reading rest) := by
  rw [Tree.wordsRow_plain_cons, List.append_assoc]
  have hfollow (ts : List SourceTree) :
      headKind (ts.flatMap (fun t => Word.punctuator .comma :: t.words) ++ rest) =
          .punctuator .comma ∨
        ts.flatMap (fun t => Word.punctuator .comma :: t.words) ++ rest = rest := by
    cases ts with
    | nil => exact .inr rfl
    | cons t ts => exact .inl rfl
  have hloop (ts : List SourceTree) (hts : ∀ t ∈ ts, t ∈ tree :: trees) (first : List SourceTree) :
      Loops (fun items => do
        if ← eatPunctuator .comma then return some (items ++ [← item]) else return none)
        first (ts.flatMap (fun t => Word.punctuator .comma :: t.words) ++ rest)
        (first ++ ts.map Tree.bare) rest := by
    induction ts generalizing first with
    | nil =>
      rw [List.map_nil, List.append_nil]
      exact .refl
    | cons t ts ih =>
      have hread := hitem t (hts t (by simp)) _ (hfollow ts)
      have hl := ih (fun t' ht' => hts t' (by simp [ht'])) (first ++ [t.bare])
      rw [List.append_assoc, List.singleton_append] at hl
      refine .head ?_ ?_ hl
      · simp [Word.kind, hread]
      · grind
  have hdone (items : List SourceTree) : (do
      if ← eatPunctuator .comma then return some (items ++ [← item]) else return none :
        Parser Cursor (Option (List SourceTree))).outcome (reading rest) = some
            (none, reading rest) := by
    simp [hrest]
  rw [commaSeparated, outcome_bind, hitem tree (by simp) _ (hfollow trees)]
  exact outcome_repeating_of_loops (hloop trees (fun t ht => by simp [ht]) [tree.bare]) (hdone _)

/-- Arguments are read back. -/
theorem outcome_arguments (hc : Complete n S sub) (hS : Regular S) {arguments : List SourceTree}
    (ha : ∀ a ∈ arguments, S .expression a)
    (hn : (Tree.wordsRow .plain arguments).length ≤ n) (rest : List Word) :
    (Grammar.arguments sub).outcome
        (reading (.punctuator .lparen :: (Tree.wordsRow .plain arguments ++
          .punctuator .rparen :: rest))) =
      some (arguments.map Tree.bare, reading rest) := by
  cases arguments with
  | nil => simp [Grammar.arguments, Tree.wordsRow, Word.kind]
  | cons first arguments =>
    have hitem : ∀ t ∈ first :: arguments, ∀ rest',
        (headKind rest' = .punctuator .comma ∨ rest' = .punctuator .rparen :: rest) →
          (sub .expression).outcome (reading (t.words ++ rest')) = some
              (t.bare, reading rest') := by
      intro t ht rest' hrest
      refine hc .expression t rest' (ha t ht) (Nat.le_trans (length_words_le_of_mem ht) hn) ?_
      rcases hrest with h | rfl
      · rw [h]
        rfl
      · rfl
    have hread := outcome_commaSeparated hitem (by rintro ⟨⟩)
    have hfirst := hS _ _ (ha first (by simp))
    have hhead : headKind (Tree.wordsRow .plain (first :: arguments) ++
        .punctuator .rparen :: rest) ≠ .punctuator .rparen := by
      rw [Tree.wordsRow_plain_cons, List.append_assoc, hfirst.headKind_append]
      intro he
      have := hfirst.head
      rw [he] at this
      cases this
    simp [Grammar.arguments, hhead, hread]

/-! ## Operands -/

/-- The words do not continue a name in an expression: a step of a longer name is called. -/
def StopsNameOperand (ws : List Word) : Prop :=
  (headKind ws = .punctuator .dot →
    headKind ws.tail = .identifier ∧ headKind (ws.drop 2) = .punctuator .lparen) ∧
    StopsDimensions ws

private theorem outcome_qualifiedOperandStep (q : SourceTree) (text : String)
    (h : headKind rest ≠ .punctuator .lparen) :
    (qualifiedOperandStep .nowhere q).outcome
        (reading (.punctuator .dot :: .identifier text :: rest)) =
      some (some (.node .nowhere (.qualifiedName q (.node .nowhere (.simpleName text)))),
        reading rest) := by
  simp [qualifiedOperandStep, h, outcome_qualifiedStep]

private theorem outcome_qualifiedOperandStep_none (q : SourceTree)
    (h : StopsName rest ∨ headKind (rest.drop 2) = .punctuator .lparen) :
    (qualifiedOperandStep .nowhere q).outcome (reading rest) = some (none, reading rest) := by
  by_cases hp : headKind (rest.drop 2) = .punctuator .lparen
  · simp [qualifiedOperandStep, hp]
  · simp [qualifiedOperandStep, hp, outcome_qualifiedStep_none q (h.resolve_right hp)]

private theorem outcome_primary_identifier {ws : List Word} (h : headKind ws = .identifier) :
    (primary sub).outcome (reading ws) = (nameOperand sub).outcome (reading ws) := by
  simp [primary, h]

/-- A name at the front of an operand is read up to where it stops. -/
theorem outcome_nameOperand {name : SourceTree} (h : IsName name)
    (hp : headKind rest ≠ .punctuator .lparen)
    (hstop : StopsName rest ∨ headKind (rest.drop 2) = .punctuator .lparen) :
    (nameOperand sub).outcome (reading (name.words ++ rest)) =
      (do
        if (← checkPunctuator .dot) && (← kindAt 1) == .keyword .classWord then
          typeLiteral .nowhere (← node .nowhere (.simpleType name.bare))
        else if (← checkPunctuator .lbracket) && (← kindAt 1) == .punctuator .rbracket then
          typeLiteral .nowhere (← dimensions .nowhere (← node .nowhere (.simpleType name.bare)))
        else
          return name.bare : Parser Cursor SourceTree).outcome (reading rest) := by
  obtain ⟨first, ws, hfirst, hl, hws⟩ := h.loops
    (fun kind => kind ≠ .punctuator .lparen) nofun
    (fun q text rest h => outcome_qualifiedOperandStep q text h) hp
  have hparen : headKind ws ≠ .punctuator .lparen := by
    rcases hws with hws | rfl
    · rw [hws]
      nofun
    · exact hp
  have hname := outcome_repeating_of_loops hl (outcome_qualifiedOperandStep_none _ hstop)
  simp only [nameOperand, outcome_bind, outcome_currentSpan, hfirst, Option.bind_some,
    outcome_checkPunctuator, outcome_ite, beq_iff_eq, if_neg hparen, hname]

/-- A name is read back as an operand where it is not called and does not start a type literal. -/
private theorem outcome_primary_name {name : SourceTree} (h : IsName name)
    (hp : headKind rest ≠ .punctuator .lparen) (hstop : StopsNameOperand rest) :
    (primary sub).outcome (reading (name.words ++ rest)) = some (name.bare, reading rest) := by
  obtain ⟨text, ws, hw⟩ := h.words_eq
  have hq : StopsName rest ∨ headKind (rest.drop 2) = .punctuator .lparen := by
    by_cases hd : headKind rest = .punctuator .dot
    · exact .inr (hstop.1 hd).2
    · exact .inl fun hd' => absurd hd' hd
  have hclass : ¬ (headKind rest = .punctuator .dot ∧
      headKind rest.tail = .keyword .classWord) := by
    rintro ⟨hd, hk⟩
    rw [(hstop.1 hd).1] at hk
    cases hk
  have hdims : ¬ (headKind rest = .punctuator .lbracket ∧
      headKind rest.tail = .punctuator .rbracket) := fun hh => hstop.2 hh.1 hh.2
  rw [outcome_primary_identifier (by rw [hw]; rfl), outcome_nameOperand h hp hq]
  simp [hclass, hdims]

@[simp] theorem outcome_typeLiteral (type : SourceTree) (rest : List Word) :
    (typeLiteral .nowhere type).outcome
        (reading (.punctuator .dot :: .keyword .classWord :: rest)) =
      some (.node .nowhere (.typeLiteral type), reading rest) := by
  simp [typeLiteral]

/-- A type literal is read back; the dimensions of a type of a name are seen before its brackets are
taken for an index. -/
private theorem outcome_primary_typeLiteral {type : SourceTree} (h : IsType true type)
    (rest : List Word) :
    (primary sub).outcome
        (reading (type.words ++ .punctuator .dot :: .keyword .classWord :: rest)) =
      some (.node .nowhere (.typeLiteral type.bare), reading rest) := by
  obtain ⟨element, ds, he, hw, hds, hl⟩ := h.loops
  have hdims := outcome_dimensions (hl (.punctuator .dot :: .keyword .classWord :: rest))
    (by rintro ⟨⟩)
  rw [hw, List.append_assoc]
  cases he with
  | @primitive span primitive hv =>
    have hdims : (dimensions .nowhere (.node .nowhere (.primitiveType primitive))).outcome _ = _ :=
      hdims
    simp [primary, Tree.words, Word.kind, primitiveType, hdims]
  | @named span name hname =>
    obtain ⟨text, ws, hwords⟩ := hname.words_eq
    have hp : headKind (ds ++ .punctuator .dot :: .keyword .classWord :: rest) ≠
        .punctuator .lparen := by
      rcases hds with ⟨rfl, -⟩ | ⟨hd, -⟩
      · rintro ⟨⟩
      · cases ds with
        | nil => cases hd
        | cons w ds =>
          rw [List.cons_append, headKind_cons, show w.kind = _ from hd]
          rintro ⟨⟩
    have hclass : StopsName (.punctuator .dot :: .keyword .classWord :: rest) := by
      rintro - ⟨⟩
    have hq := stopsName_dimensions (hds.imp And.left And.left) hclass
    rw [Tree.words, outcome_primary_identifier (by rw [hwords]; rfl),
      outcome_nameOperand hname hp (.inl hq)]
    have hdims : (dimensions .nowhere (.node .nowhere (.simpleType name.bare))).outcome _ = _ :=
      hdims
    rcases hds with ⟨rfl, rfl⟩ | ⟨hd, hd'⟩
    · simp [Word.kind]
      rfl
    · rcases ds with _ | ⟨w, _ | ⟨v, ds⟩⟩
      · cases hd
      · cases hd'
      · simp only [headKind_cons, List.tail_cons] at hd hd'
        simp only [List.cons_append] at hdims
        simp [hd, hd', hdims]

/-- The words do not continue an operand without selectors by anything but selectors. -/
def StopsPrimary (tree : SourceTree) (ws : List Word) : Prop :=
  headKind ws ≠ .punctuator .lparen ∧ headKind ws ≠ .punctuator .lbrace ∧
    (IsName tree → StopsNameOperand ws)

/-- An operand without selectors is read back. -/
theorem outcome_primary (hc : Complete n S sub) (hS : Regular S) (h : IsPrimary S tree)
    (hn : tree.words.length ≤ n + 1) (hstop : StopsPrimary tree rest) :
    (primary sub).outcome (reading (tree.words ++ rest)) = some (tree.bare, reading rest) := by
  cases h with
  | number | character | string | null | this =>
    simp [primary, Tree.words, Word.kind, leaf, current]
    rfl
  | boolean span value =>
    cases value <;> simp [primary, Tree.words, Word.kind, leaf] <;> rfl
  | typeLiteral span h =>
    rw [Tree.words, List.append_assoc]
    exact outcome_primary_typeLiteral h rest
  | @parenthesized span expression h =>
    simp only [Tree.words, List.length_append, List.length_cons, List.length_nil] at hn
    have hread := hc .expression expression (.punctuator .rparen :: rest) h (by omega) rfl
    simp [primary, Tree.words, Word.kind, hread]
    rfl
  | @creation span typeSpan name arguments hname ha =>
    simp only [Tree.words, List.length_append, List.length_cons, List.length_nil] at hn
    obtain ⟨text, ws, hw⟩ := hname.words_eq
    have hargs := outcome_arguments hc hS ha (by omega) rest
    have hread := outcome_name hname (.punctuator .lparen :: (Tree.wordsRow .plain arguments ++
      .punctuator .rparen :: rest)) (by rintro ⟨⟩)
    have hhead : headKind (name.words ++ .punctuator .lparen :: (Tree.wordsRow .plain arguments ++
        .punctuator .rparen :: rest)) = .identifier := by rw [hw]; rfl
    simp [primary, Tree.words, Word.kind, instanceCreation, hhead, hread, hargs, hstop.2.1,
      Tree.bare_node]
    rfl
  | @call span name arguments hname ha =>
    obtain ⟨span', text⟩ := hname
    simp only [Tree.words, List.length_append, List.length_cons, List.length_nil] at hn
    have hargs := outcome_arguments hc hS ha (by omega) rest
    simp [primary, Tree.words, Word.kind, nameOperand, hargs, Tree.bare_node, Tree.isPresent]
    rfl
  | name h => exact outcome_primary_name h hstop.1 (hstop.2.2 h)

/-! ## Selectors and operators after an operand -/

private theorem outcome_selectorStep_none (operand : SourceTree)
    (hd : headKind rest ≠ .punctuator .dot) (hb : headKind rest ≠ .punctuator .lbracket) :
    (selectorStep sub .nowhere operand).outcome (reading rest) = some (none, reading rest) := by
  simp [selectorStep, hd, hb]

/-- An operand with selectors is read as an operand without them that the selectors follow. -/
theorem IsSelected.loops (hc : Complete n S sub) (hS : Regular S) (h : IsSelected S tree)
    (hn : tree.words.length ≤ n + 1) (hstop : StopsPrimary tree rest) :
    ∃ first ws,
      (Grammar.primary sub).outcome (reading (tree.words ++ rest)) = some (first, reading ws) ∧
      Loops (selectorStep sub .nowhere) first ws tree.bare rest := by
  induction h generalizing rest with
  | @primary tree h => exact ⟨tree.bare, rest, outcome_primary hc hS h hn hstop, .refl⟩
  | @field span operand name ho hno hname ih =>
    obtain ⟨span', text⟩ := hname
    simp only [Tree.words, List.length_append, List.length_cons, List.length_nil] at hn
    obtain ⟨first, ws, hfirst, hl⟩ := @ih (.punctuator .dot :: .identifier text :: rest)
      (by omega) ⟨by rintro ⟨⟩, by rintro ⟨⟩, fun h => absurd h hno⟩
    refine ⟨first, ws, by simpa [Tree.words] using hfirst, hl.snoc ?_ (by grind)⟩
    simp [selectorStep, Word.kind, hstop.1]
    rfl
  | @call span operand name arguments ho hname ha ih =>
    obtain ⟨span', text⟩ := hname
    have hp := (ho.opens hS).isPresent
    simp only [Tree.words, if_pos hp, List.length_append, List.length_cons,
      List.length_nil] at hn
    have hargs := outcome_arguments hc hS ha (by omega) rest
    obtain ⟨first, ws, hfirst, hl⟩ := @ih
      (.punctuator .dot :: .identifier text :: .punctuator .lparen ::
        (Tree.wordsRow .plain arguments ++ .punctuator .rparen :: rest))
      (by omega) ⟨by rintro ⟨⟩, by rintro ⟨⟩, fun _ => ⟨fun _ => ⟨rfl, rfl⟩, by rintro ⟨⟩⟩⟩
    refine ⟨first, ws, by simpa [Tree.words, hp] using hfirst, hl.snoc ?_ (by grind)⟩
    simp [selectorStep, Word.kind, hargs, Tree.bare_node]
    rfl
  | @element span operand index ho hi ih =>
    simp only [Tree.words, List.length_append, List.length_cons, List.length_nil] at hn
    have hread := hc .expression index (.punctuator .rbracket :: rest) hi (by omega) rfl
    have hhead : headKind (index.words ++ .punctuator .rbracket :: rest) ≠
        .punctuator .rbracket := by
      rw [(hS _ _ hi).headKind_append]
      intro he
      have := (hS _ _ hi).head
      rw [he] at this
      cases this
    obtain ⟨first, ws, hfirst, hl⟩ := @ih
      (.punctuator .lbracket :: (index.words ++ .punctuator .rbracket :: rest))
      (by omega) ⟨by rintro ⟨⟩, by rintro ⟨⟩, fun _ => ⟨by rintro ⟨⟩, fun _ => hhead⟩⟩
    refine ⟨first, ws, by simpa [Tree.words] using hfirst, hl.snoc ?_ (by grind)⟩
    simp [selectorStep, Word.kind, hread]
    rfl

/-- Whether an operand with its selectors ends before a class of words. -/
def stopsSelectors : TokenKind → Bool
  | .punctuator .dot | .punctuator .lbracket | .punctuator .lparen | .punctuator .lbrace => false
  | _ => true

private theorem stopsPrimary_of_stopsSelectors (h : stopsSelectors (headKind rest) = true) :
    StopsPrimary tree rest := by
  refine ⟨fun hk => ?_, fun hk => ?_, fun _ => ⟨fun hk => ?_, fun hk => ?_⟩⟩ <;>
    rw [hk] at h <;> cases h

private theorem outcome_repeating_selectorStep (hc : Complete n S sub) (hS : Regular S)
    (h : IsSelected S tree) (hn : tree.words.length ≤ n + 1)
    (hstop : stopsSelectors (headKind rest) = true) :
    (do repeating (selectorStep sub .nowhere) (← primary sub)).outcome
        (reading (tree.words ++ rest)) = some (tree.bare, reading rest) := by
  obtain ⟨first, ws, hfirst, hl⟩ := h.loops hc hS hn (stopsPrimary_of_stopsSelectors hstop)
  rw [outcome_bind, hfirst]
  refine outcome_repeating_of_loops hl (outcome_selectorStep_none _ ?_ ?_) <;>
    intro hk <;> rw [hk] at hstop <;> cases hstop

/-- An operand with operators after it is read as an operand with selectors that they follow. -/
theorem IsPostfixed.loops (hc : Complete n S sub) (hS : Regular S) (h : IsPostfixed S tree)
    (hn : tree.words.length ≤ n + 1) (hstop : stopsSelectors (headKind rest) = true) :
    ∃ selected ws, (do repeating (selectorStep sub .nowhere) (← primary sub)).outcome
        (reading (tree.words ++ rest)) = some (selected, reading ws) ∧
      Loops (postfixStep .nowhere) selected ws tree.bare rest := by
  induction h generalizing rest with
  | @selected tree h =>
    exact ⟨tree.bare, rest, outcome_repeating_selectorStep hc hS h hn hstop, .refl⟩
  | @operator span operator operand h ih =>
    simp only [Tree.words, List.length_append, List.length_cons, List.length_nil] at hn
    obtain ⟨selected, ws, hselected, hl⟩ := @ih (.punctuator operator.punctuator :: rest)
      (by omega) (by cases operator <;> rfl)
    refine ⟨selected, ws, by simpa [Tree.words] using hselected, hl.snoc ?_ (by simp)⟩
    have ho : operator.punctuator.postfixOperator? = some operator :=
      Punctuator.postfixOperator?_eq_some.2 rfl
    simp [postfixStep, Word.kind, TokenKind.punctuator?, ho]
    rfl

private theorem outcome_postfixStep_none (operand : SourceTree)
    (h : stopsOperand (headKind rest) = true) :
    (postfixStep .nowhere operand).outcome (reading rest) = some (none, reading rest) := by
  have hnone : (headKind rest).punctuator?.bind Punctuator.postfixOperator? = none := by
    rw [Option.eq_none_iff_forall_ne_some]
    intro operator ho
    obtain ⟨p, hk, hp⟩ := TokenKind.punctuator?_bind_eq_some.1 ho
    cases Punctuator.postfixOperator?_eq_some.1 hp
    rw [hk] at h
    cases operator <;> cases h
  simp [postfixStep, hnone]

private theorem stopsSelectors_of_stopsOperand {kind : TokenKind} (h : stopsOperand kind = true) :
    stopsSelectors kind = true := by
  unfold stopsSelectors
  split <;> first | rfl | cases h

/-- An operand with its selectors and the operators after it is read back. -/
theorem outcome_postfixed (hc : Complete n S sub) (hS : Regular S) (h : IsPostfixed S tree)
    (hn : tree.words.length ≤ n + 1) (hstop : stopsOperand (headKind rest) = true) :
    (postfixed sub).outcome (reading (tree.words ++ rest)) = some (tree.bare, reading rest) := by
  obtain ⟨selected, ws, hselected, hl⟩ := h.loops hc hS hn (stopsSelectors_of_stopsOperand hstop)
  have hall := outcome_repeating_of_loops hl (outcome_postfixStep_none _ hstop)
  rw [outcome_bind] at hselected
  obtain ⟨⟨first, cursor⟩, hfirst, hselected⟩ := Option.bind_eq_some_iff.1 hselected
  simp [postfixed, hfirst, hselected, hall]

/-! ## Operators and casts before an operand -/

private theorem startsCast_of_noType {w : Word} {ws : List Word} (h : NoType ws) :
    startsCast (w :: ws) = false := by
  rw [startsCast]
  split
  next operand hs => exact absurd rfl (h _ hs).1
  next => rfl

/-- The words start neither with an operator nor with a cast. -/
def PlainFront (ws : List Word) : Prop :=
  (headKind ws).punctuator?.bind Punctuator.prefixOperator? = none ∧
    (headKind ws = .punctuator .lparen → startsCast ws = false)

private theorem plainFront_of_head {ws : List Word} (h : (headKind ws).punctuator? = none) :
    PlainFront ws := by
  refine ⟨by rw [h]; rfl, fun hk => ?_⟩
  rw [hk] at h
  cases h

private theorem plainFront_parenthesized (h : Opens tree)
    (hr : startsCastOperand (headKind rest) = false) :
    PlainFront (.punctuator .lparen :: (tree.words ++ .punctuator .rparen :: rest)) := by
  refine ⟨rfl, fun _ => ?_⟩
  by_cases hn : IsName tree
  · obtain ⟨text, ws, hw⟩ := hn.words_eq
    have hs : skipType (tree.words ++ .punctuator .rparen :: rest) =
        some (.punctuator .rparen :: rest) :=
      skipType_name_cons hn nofun nofun
    rw [startsCast_of_skipType hs, hr, hw]
    rfl
  · exact startsCast_of_noType (h.noType hn _)

/-- An operand in parentheses is not taken for a cast before what does not start an operand. -/
theorem IsPrimary.plainFront (hS : Regular S) (h : IsPrimary S tree)
    (hr : startsCastOperand (headKind rest) = false) : PlainFront (tree.words ++ rest) := by
  cases h with
  | number | character | string | null | this | creation => exact plainFront_of_head rfl
  | boolean span value => cases value <;> exact plainFront_of_head rfl
  | typeLiteral span h =>
    apply plainFront_of_head
    rw [Tree.words, List.append_assoc, headKind_append_of_ne_nil h.words_ne_nil]
    rcases h.words_eq with ⟨_, _, hw⟩ | ⟨_, _, hw, _⟩ <;> rw [hw] <;> rfl
  | parenthesized span h =>
    have := plainFront_parenthesized (hS _ _ h) hr
    simpa [Tree.words] using this
  | call span hn ha =>
    obtain ⟨span', text⟩ := hn
    exact plainFront_of_head rfl
  | name h =>
    obtain ⟨text, ws, hw⟩ := h.words_eq
    apply plainFront_of_head
    rw [hw]
    rfl

/-- A selection in parentheses is not taken for a cast before what does not start an operand. -/
theorem IsSelected.plainFront (hS : Regular S) (h : IsSelected S tree)
    (hr : startsCastOperand (headKind rest) = false) : PlainFront (tree.words ++ rest) := by
  induction h generalizing rest with
  | primary h => exact h.plainFront hS hr
  | @field span operand name ho hno hn ih =>
    have := @ih (.punctuator .dot :: (name.words ++ rest)) rfl
    simpa [Tree.words] using this
  | @call span operand name arguments ho hn ha ih =>
    have hp := (ho.opens hS).isPresent
    have := @ih (.punctuator .dot :: (name.words ++ .punctuator .lparen ::
      (Tree.wordsRow .plain arguments ++ .punctuator .rparen :: rest))) rfl
    simpa [Tree.words, hp] using this
  | @element span operand index ho hi ih =>
    have := @ih (.punctuator .lbracket :: (index.words ++ .punctuator .rbracket :: rest)) rfl
    simpa [Tree.words] using this

/-- A postfix operation in parentheses is not taken for a cast before what does not start an
operand. -/
theorem IsPostfixed.plainFront (hS : Regular S) (h : IsPostfixed S tree)
    (hr : startsCastOperand (headKind rest) = false) : PlainFront (tree.words ++ rest) := by
  induction h generalizing rest with
  | selected h => exact h.plainFront hS hr
  | @operator span operator operand h ih =>
    have := @ih (.punctuator operator.punctuator :: rest) (by cases operator <;> rfl)
    simpa [Tree.words] using this

/-- A cast is told from a parenthesis. -/
theorem startsCast_cast {type operand : SourceTree} (ht : IsType false type)
    (hc : ReadsAsCast type operand) (ho : operand.words ≠ []) (rest : List Word) :
    startsCast (.punctuator .lparen ::
      (type.words ++ .punctuator .rparen :: (operand.words ++ rest))) = true := by
  have hs : skipType (type.words ++ .punctuator .rparen :: (operand.words ++ rest)) =
      some (.punctuator .rparen :: (operand.words ++ rest)) :=
    skipType_type_cons ht nofun nofun
  rw [startsCast_of_skipType hs, headKind_append_of_ne_nil ht.words_ne_nil,
    headKind_append_of_ne_nil ho, Bool.or_eq_true]
  exact hc

/-- An operand with operators and casts before it is read back. -/
theorem outcome_unary (hc : Complete n S sub) (hS : Regular S) (h : IsUnary S tree)
    (hn : tree.words.length ≤ n + 1) (hstop : stopsOperand (headKind rest) = true) :
    (unary sub).outcome (reading (tree.words ++ rest)) = some (tree.bare, reading rest) := by
  cases h with
  | @operator span operator operand h =>
    simp only [Tree.words, List.length_cons] at hn
    have hread := hc .unary operand rest h (by omega) hstop
    have ho : operator.punctuator.prefixOperator? = some operator :=
      Punctuator.prefixOperator?_eq_some.2 rfl
    simp [unary, Tree.words, Word.kind, TokenKind.punctuator?, ho, hread]
    rfl
  | @cast span type operand ht ho hcast =>
    simp only [Tree.words, List.length_append, List.length_cons] at hn
    have hread := hc .unary operand rest ho (by omega) hstop
    have htype := outcome_type ht (.punctuator .rparen :: (operand.words ++ rest))
      (by rintro ⟨⟩) (by rintro ⟨⟩)
    have hfront := startsCast_cast ht hcast (hS _ _ ho).words_ne_nil rest
    have hat := outcome_atCast (.punctuator .lparen ::
      (type.words ++ .punctuator .rparen :: (operand.words ++ rest)))
    rw [hfront] at hat
    simp [unary, Tree.words, Word.kind, TokenKind.punctuator?, Punctuator.prefixOperator?, hat,
      htype, hread]
    rfl
  | postfixed h =>
    have hread := outcome_postfixed hc hS h hn hstop
    obtain ⟨hop, hcast⟩ := h.plainFront hS (startsCastOperand_of_stopsOperand hstop)
    simp only [unary, outcome_bind, outcome_currentSpan, outcome_currentKind, Option.bind_some, hop,
      outcome_checkPunctuator, outcome_atCast, outcome_ite]
    rw [if_neg, hread]
    simpa using hcast

/-! ## Infix operators -/

/-- Whether an expression leaves what follows it to the operators around it. -/
def Leaves (kind : TokenKind) : SourceTree → Prop
  | .node _ (.infixExpression operator ..) => stopsBinary (operator.precedence + 1) kind = true
  | _ => stopsOperand kind = true

private theorem Leaves.stopsOperand {kind : TokenKind} (h : Leaves kind tree) :
    Grammar.stopsOperand kind = true := by
  unfold Leaves at h
  split at h
  · exact (stopsBinary_iff.1 h).1
  · exact h

private theorem stopsOperand_infixOperator (operator : InfixOperator) :
    stopsOperand (.punctuator operator.punctuator) = true := by
  cases operator <;> rfl

/-- An operator is left alone by what it can have on its left. -/
theorem Admits.leaves_infixOperator {operator : InfixOperator}
    (h : Admits operator.precedence tree) :
    Leaves (.punctuator operator.punctuator) tree := by
  unfold Leaves
  unfold Admits at h
  split
  next left _ _ =>
    refine stopsBinary_iff.2 ⟨stopsOperand_infixOperator operator, nofun, fun op hop => ?_⟩
    cases InfixOperator.punctuator_inj (TokenKind.punctuator.inj hop)
    exact Nat.lt_succ_of_le h
  next => exact stopsOperand_infixOperator operator

private theorem Admits.leaves_instanceof (h : Admits instanceofPrecedence tree) :
    Leaves (.keyword .instanceofWord) tree := by
  unfold Leaves
  unfold Admits at h
  split
  next => exact stopsBinary_iff.2 ⟨rfl, fun _ => Nat.lt_succ_of_le h, nofun⟩
  next => rfl

private theorem IsBinary.leaves {least : Nat} {kind : TokenKind} (h : IsBinary S least tree)
    (hstop : stopsBinary least kind = true) : Leaves kind tree := by
  have ho := (stopsBinary_iff.1 hstop).1
  cases h with
  | unary h =>
    unfold Leaves
    split
    next => exact absurd h nofun
    next => exact ho
  | infixed span operator hl hp ha hr => exact stopsBinary_mono (Nat.le_succ_of_le hp) hstop
  | instanceof => exact ho

/-- Operands joined by infix operators are read as the first of them that the others follow. -/
theorem IsBinary.loops {least : Nat} (hc : Complete n S sub) (hS : Regular S)
    (h : IsBinary S least tree) (hn : tree.words.length ≤ n + 1)
    (hstop : Leaves (headKind rest) tree) :
    ∃ first ws,
      (Grammar.unary sub).outcome (reading (tree.words ++ rest)) = some (first, reading ws) ∧
      Loops (binaryStep sub least .nowhere) first ws tree.bare rest := by
  induction h generalizing rest with
  | @unary tree h => exact ⟨tree.bare, rest, outcome_unary hc hS h hn hstop.stopsOperand, .refl⟩
  | @infixed span operator left right hl hp ha hr ih =>
    simp only [Tree.words, List.length_append, List.length_cons] at hn
    obtain ⟨first, ws, hfirst, hloop⟩ :=
      @ih (.punctuator operator.punctuator :: (right.words ++ rest))
          (by omega) ha.leaves_infixOperator
    refine ⟨first, ws, by simpa [Tree.words] using hfirst, hloop.snoc ?_ (by grind)⟩
    have hne := (hl.opens hS).words_ne_nil
    have hread := hc (.binary (operator.precedence + 1)) right rest hr
      (by have := List.length_pos_iff.2 hne; omega) hstop
    have ho : operator.punctuator.infixOperator? = some operator :=
      Punctuator.infixOperator?_eq_some.2 rfl
    simp [binaryStep, Word.kind, TokenKind.punctuator?, ho, Nat.not_lt.2 hp, hread]
    rfl
  | @instanceof span left type hl hp ha ht ih =>
    simp only [Tree.words, List.length_append, List.length_cons] at hn
    obtain ⟨first, ws, hfirst, hloop⟩ :=
      @ih (.keyword .instanceofWord :: (type.words ++ rest)) (by omega) ha.leaves_instanceof
    refine ⟨first, ws, by simpa [Tree.words] using hfirst, hloop.snoc ?_ (by grind)⟩
    have hname : StopsName rest := stopsName_of_head fun hk => by rw [hk] at hstop; cases hstop
    have hdims : StopsDimensions rest :=
      stopsDimensions_of_head fun hk => by rw [hk] at hstop; cases hstop
    have hread := outcome_type ht rest hname hdims
    simp [binaryStep, Word.kind, hp, hread]
    rfl

private theorem outcome_binaryStep_none {least : Nat} (left : SourceTree)
    (h : stopsBinary least (headKind rest) = true) :
    (binaryStep sub least .nowhere left).outcome (reading rest) = some (none, reading rest) := by
  obtain ⟨-, hi, hp⟩ := stopsBinary_iff.1 h
  have hinstanceof : ¬ (headKind rest = .keyword .instanceofWord ∧
      least ≤ instanceofPrecedence) := fun hh => absurd (hi hh.1) (Nat.not_lt.2 hh.2)
  simp only [binaryStep, outcome_bind, outcome_currentKind, Option.bind_some, outcome_ite,
    Bool.and_eq_true, beq_iff_eq, decide_eq_true_eq, if_neg hinstanceof]
  split
  next operator ho =>
    obtain ⟨p, hk, hop⟩ := TokenKind.punctuator?_bind_eq_some.1 ho
    cases Punctuator.infixOperator?_eq_some.1 hop
    rw [outcome_ite, if_pos (hp operator hk), outcome_pure]
  next => rfl

/-- Operands joined by infix operators are read back. -/
theorem outcome_binary {least : Nat} (hc : Complete n S sub) (hS : Regular S)
    (h : IsBinary S least tree) (hn : tree.words.length ≤ n + 1)
    (hstop : stopsBinary least (headKind rest) = true) :
    (binary sub least).outcome (reading (tree.words ++ rest)) = some (tree.bare, reading rest) := by
  obtain ⟨first, ws, hfirst, hl⟩ := h.loops hc hS hn (h.leaves hstop)
  have hall := outcome_repeating_of_loops hl (outcome_binaryStep_none _ hstop)
  simp [binary, hfirst, hall]

/-! ## Choices and assignments -/

/-- A choice is read back. -/
theorem outcome_conditional (hc : Complete n S sub) (hS : Regular S) (h : IsConditional S tree)
    (hn : tree.words.length ≤ n + 1) (hstop : stops .conditional (headKind rest) = true) :
    (conditional sub).outcome (reading (tree.words ++ rest)) = some (tree.bare, reading rest) := by
  cases h with
  | binary h =>
    obtain ⟨hb, hq⟩ := (Bool.and_eq_true _ _).mp hstop
    have hread := outcome_binary hc hS h hn hb
    simp [conditional, hread, bne_iff_ne.1 hq]
  | @choice span condition thenExpression elseExpression hcond hthen helse =>
    simp only [Tree.words, List.length_append, List.length_cons] at hn
    have hcondition : (binary sub 1).outcome (reading (condition.words ++ .punctuator .question ::
        (thenExpression.words ++ .punctuator .colon :: (elseExpression.words ++ rest)))) = _ :=
      outcome_binary hc hS hcond (by omega) rfl
    have hne := (hcond.opens hS).words_ne_nil
    have hpos := List.length_pos_iff.2 hne
    have hread := hc .expression thenExpression
      (.punctuator .colon :: (elseExpression.words ++ rest)) hthen (by omega) rfl
    have hread' := hc .conditional elseExpression rest helse (by omega) hstop
    simp [conditional, Tree.words, hcondition, Word.kind, hread, hread']
    rfl

/-- An assignment is read back. -/
theorem outcome_assignment (hc : Complete n S sub) (hS : Regular S) (h : IsAssignment S tree)
    (hn : tree.words.length ≤ n + 1) (hstop : stops .expression (headKind rest) = true) :
    (assignment sub).outcome (reading (tree.words ++ rest)) = some (tree.bare, reading rest) := by
  cases h with
  | conditional h =>
    obtain ⟨hcond, hnone⟩ := (Bool.and_eq_true _ _).mp hstop
    have hread := outcome_conditional hc hS h hn hcond
    simp [assignment, hread, Option.isNone_iff_eq_none.1 hnone]
  | @assignment span operator left right hl hr =>
    simp only [Tree.words, List.length_append, List.length_cons] at hn
    have hleft : (conditional sub).outcome (reading (left.words ++
        .punctuator operator.punctuator :: (right.words ++ rest))) = _ :=
      outcome_conditional hc hS hl (by omega) (by cases operator <;> rfl)
    have hpos := List.length_pos_iff.2 (hl.opens hS).words_ne_nil
    have hread := hc .expression right rest hr (by omega) hstop
    have ho : operator.punctuator.assignmentOperator? = some operator :=
      Punctuator.assignmentOperator?_eq_some.2 rfl
    simp [assignment, Tree.words, hleft, Word.kind, TokenKind.punctuator?, ho, hread]
    rfl

/-! ## Every level -/

private theorem complete_succ {depth : Nat} (hS : Regular S) (hc : Complete n S (level depth)) :
    Complete (n + 1) S.next (level (depth + 1)) := by
  intro lv tree rest h hn hstop
  cases lv with
  | expression => exact outcome_assignment hc hS h hn hstop
  | conditional => exact outcome_conditional hc hS h hn hstop
  | binary least => exact outcome_binary hc hS h hn hstop
  | unary => exact outcome_unary hc hS h hn hstop

/-- A depth of the number of words suffices to read back an expression. -/
theorem complete_level (depth d : Nat) : Complete depth (Fits d) (level depth) := by
  induction depth generalizing d with
  | zero =>
    intro lv tree rest h hn
    exact absurd (List.length_eq_zero_iff.1 (Nat.le_zero.1 hn)) (regular_fits d _ _ h).words_ne_nil
  | succ depth ih =>
    cases d with
    | zero => exact fun _ _ _ h => h.elim
    | succ d => exact complete_succ (regular_fits d) (ih d)

/-- An expression is read back. -/
theorem outcome_expression (h : IsExpression tree) (rest : List Word)
    (hstop : stops .expression (headKind rest) = true) :
    expression.outcome (reading (tree.words ++ rest)) = some (tree.bare, reading rest) := by
  obtain ⟨d, hd⟩ := h
  rw [expression, bounded, outcome_bind, outcome_place, Option.bind_some]
  exact complete_level _ d .expression tree rest hd (by simp; omega) hstop

end JavaFold.Grammar
