import JavaFold.Proofs.Arena.RoundTrip

/-!
# Words with single spaces between them

An expression is laid out as its words, in order, with nothing or one space between two of them
(`Spaced`). The words of an expression that was read are the tokens of its source up to the end
(`tokens_of_parseTreeWith`), so writing it gives back every token of the source in its place.
-/

namespace JavaFold

/-- Marks that consist of the texts of words, at least one, with at most one space after each but
the last. -/
inductive Spaced : List Mark → List Word → Prop where
  | last (w : Word) : Spaced [.text w.text] [w]
  | next (w : Word) {marks : List Mark} {ws : List Word} (h : Spaced marks ws) :
    Spaced (.text w.text :: marks) (w :: ws)
  | space (w : Word) {marks : List Mark} {ws : List Word} (h : Spaced marks ws) :
    Spaced (.text w.text :: .space :: marks) (w :: ws)

namespace Spaced

variable {marks marks' : List Mark} {ws ws' : List Word}

theorem append (h : Spaced marks ws) (h' : Spaced marks' ws') :
    Spaced (marks ++ marks') (ws ++ ws') := by
  induction h with
  | last w => exact .next w h'
  | next w h ih => exact .next w ih
  | space w h ih => exact .space w ih

private theorem append_space (h : Spaced marks ws) (h' : Spaced marks' ws') :
    Spaced (marks ++ .space :: marks') (ws ++ ws') := by
  induction h with
  | last w => exact .space w h'
  | next w h ih => exact .next w ih
  | space w h ih => exact .space w ih

/-- Two phrases with a word between them, which spaces set off. -/
theorem joined (h : Spaced marks ws) (w : Word) (h' : Spaced marks' ws') :
    Spaced (marks ++ [.space, .text w.text, .space] ++ marks') (ws ++ w :: ws') := by
  rw [List.append_assoc]
  exact h.append_space (.space w h')

/-- The text of marks is that of the words with a gap after each but the last. -/
theorem render? (h : Spaced marks ws) :
    ∃ gaps : List String, gaps.length + 1 = ws.length ∧ (∀ gap ∈ gaps, gap = "" ∨ gap = " ") ∧
      Mark.render? marks =
        some (String.join (List.zipWith (· ++ ·) (ws.map Word.text) (gaps ++ [""]))) := by
  induction h with
  | last w =>
    refine ⟨[], rfl, nofun, ?_⟩
    simp [Mark.render?, Mark.written?]
  | next w h ih =>
    obtain ⟨gaps, hlength, hgaps, hrender⟩ := ih
    refine ⟨"" :: gaps, congrArg (· + 1) hlength,
      List.forall_mem_cons.mpr ⟨.inl rfl, hgaps⟩, ?_⟩
    rw [render?_cons rfl hrender]
    simp [String.join_cons]
  | space w h ih =>
    obtain ⟨gaps, hlength, hgaps, hrender⟩ := ih
    refine ⟨" " :: gaps, congrArg (· + 1) hlength,
      List.forall_mem_cons.mpr ⟨.inr rfl, hgaps⟩, ?_⟩
    rw [render?_cons rfl (render?_cons rfl hrender)]
    simp [String.join_cons, String.append_assoc]

end Spaced

namespace Grammar

variable {level : Nat} {tree name type : SourceTree} {marks : List Mark} {ws : List Word}

/-! ## Names and types -/

private theorem IsSimpleName.spaced (h : IsSimpleName name) (level : Nat) :
    Spaced (name.marks level) name.words := by
  obtain ⟨span, text⟩ := h
  exact .last (.identifier text)

private theorem IsName.spaced (h : IsName name) (level : Nat) : Spaced
    (name.marks level) name.words := by
  induction h with
  | simple h => exact h.spaced level
  | qualified span hq hn ih =>
    rw [Tree.marks, Tree.words, List.append_assoc]
    exact ih.append (.next (.punctuator .dot) (hn.spaced level))

private theorem IsType.spaced {allowVoid : Bool} (h : IsType allowVoid type) (level : Nat) :
    Spaced (type.marks level) type.words := by
  induction h with
  | element h =>
    cases h with
    | primitive span hv => exact .last (.keyword (.primitive _))
    | named span hn => exact hn.spaced level
  | array span h ih =>
    rw [Tree.marks, Tree.words]
    exact ih.append (.next (.punctuator .lbracket) (.last (.punctuator .rbracket)))

/-! ## Expressions -/

variable {sub : Phrases}

/-- Classes of trees that are laid out as their words with single spaces. -/
def SpacedPhrases (level : Nat) (sub : Phrases) : Prop :=
  ∀ l tree, sub l tree → Spaced (tree.marks level) tree.words

private theorem spaced_row {t : SourceTree} {trees : List SourceTree}
    (h : ∀ a ∈ t :: trees, Spaced (a.marks level) a.words) :
    Spaced (Tree.marksList .plain level (t :: trees)) (Tree.wordsRow .plain (t :: trees)) := by
  induction trees generalizing t with
  | nil =>
    rw [Tree.marksList, Tree.wordsRow, Tree.marksList, Tree.wordsRow, List.append_nil,
      List.append_nil]
    simpa [Form.place, Form.placeWords] using h t List.mem_cons_self
  | cons next trees ih =>
    obtain ⟨ht, hrest⟩ := List.forall_mem_cons.mp h
    rw [Tree.marksList, Tree.wordsRow, List.append_assoc, List.append_assoc]
    exact ht.append (.space (.punctuator .comma) (ih hrest))

/-- Arguments in parentheses. -/
theorem spaced_arguments {arguments : List SourceTree}
    (h : ∀ a ∈ arguments, Spaced (a.marks level) a.words) :
    Spaced (.text "(" :: (Tree.marksList .plain level arguments ++ [.text ")"]))
      (.punctuator .lparen :: (Tree.wordsRow .plain arguments ++ [.punctuator .rparen])) := by
  cases arguments with
  | nil =>
    rw [Tree.marksList, Tree.wordsRow]
    exact .next (.punctuator .lparen) (.last (.punctuator .rparen))
  | cons t trees =>
    exact .next (.punctuator .lparen) ((spaced_row h).append (.last (.punctuator .rparen)))

/-- An operand is written with blanks inside its parts only. -/
private theorem IsPrimary.spaced (hs : SpacedPhrases level sub) (h : IsPrimary sub tree) :
    Spaced (tree.marks level) tree.words := by
  cases h with
  | number span text => exact .last (.number text)
  | character span text => exact .last (.character text)
  | string span text => exact .last (.string text)
  | boolean span value =>
    cases value with
    | false => exact .last (.keyword .falseWord)
    | true => exact .last (.keyword .trueWord)
  | null span => exact .last (.keyword .nullWord)
  | this span => exact .last (.keyword .thisWord)
  | typeLiteral span h =>
    rw [Tree.marks, Tree.words]
    exact (h.spaced level).append (.next (.punctuator .dot) (.last (.keyword .classWord)))
  | parenthesized span h =>
    rw [Tree.marks, Tree.words]
    exact .next (.punctuator .lparen) ((hs _ _ h).append (.last (.punctuator .rparen)))
  | creation span typeSpan hn ha =>
    have hargs := spaced_arguments fun a hm => hs _ _ (ha a hm)
    simp only [Tree.marks, Tree.words, List.cons_append, List.nil_append, List.append_assoc]
    exact .space (.keyword .newWord) ((hn.spaced level).append hargs)
  | call span hn ha =>
    have hargs := spaced_arguments fun a hm => hs _ _ (ha a hm)
    simp only [Tree.marks, Tree.words, Tree.isPresent, Bool.false_eq_true, if_false,
      List.cons_append, List.nil_append, List.append_assoc]
    exact (hn.spaced level).append hargs
  | name h => exact h.spaced level

private theorem IsSelected.spaced (hR : Regular sub) (hs : SpacedPhrases level sub)
    (h : IsSelected sub tree) : Spaced (tree.marks level) tree.words := by
  induction h with
  | primary h => exact h.spaced hs
  | field span ho hno hn ih =>
    rw [Tree.marks, Tree.words, List.append_assoc]
    exact ih.append (.next (.punctuator .dot) (hn.spaced level))
  | call span ho hn ha ih =>
    have hargs := spaced_arguments fun a hm => hs _ _ (ha a hm)
    simp only [Tree.marks, Tree.words, (ho.opens hR).isPresent, if_true, List.cons_append,
      List.nil_append, List.append_assoc]
    exact ih.append (.next (.punctuator .dot) ((hn.spaced level).append hargs))
  | element span ho hi ih =>
    have hindex := (hs _ _ hi).append (.last (.punctuator .rbracket))
    simp only [Tree.marks, Tree.words, List.cons_append, List.nil_append, List.append_assoc]
    exact ih.append (.next (.punctuator .lbracket) hindex)

private theorem IsPostfixed.spaced (hR : Regular sub) (hs : SpacedPhrases level sub)
    (h : IsPostfixed sub tree) : Spaced (tree.marks level) tree.words := by
  induction h with
  | selected h => exact h.spaced hR hs
  | operator span operator h ih =>
    rw [Tree.marks, Tree.words, ← operator.text_punctuator]
    exact ih.append (.last (.punctuator operator.punctuator))

private theorem IsUnary.spaced (hR : Regular sub) (hs : SpacedPhrases level sub)
    (h : IsUnary sub tree) :
    Spaced (tree.marks level) tree.words := by
  cases h with
  | operator span operator h =>
    rw [Tree.marks, Tree.words, ← operator.text_punctuator, Tree.operatorGap]
    split
    · exact .space (.punctuator operator.punctuator) (hs _ _ h)
    · exact .next (.punctuator operator.punctuator) (hs _ _ h)
  | cast span ht ho hc =>
    have hrest := Spaced.space (.punctuator .rparen) (hs _ _ ho)
    simp only [Tree.marks, Tree.words, List.cons_append, List.nil_append, List.append_assoc]
    exact .next (.punctuator .lparen) ((ht.spaced level).append hrest)
  | postfixed h => exact h.spaced hR hs

private theorem IsBinary.spaced {least : Nat} (hR : Regular sub) (hs : SpacedPhrases level sub)
    (h : IsBinary sub least tree) : Spaced (tree.marks level) tree.words := by
  induction h with
  | unary h => exact h.spaced hR hs
  | infixed span operator hl hp ha hr ih =>
    rw [Tree.marks, Tree.words, ← operator.text_punctuator]
    exact ih.joined (.punctuator operator.punctuator) (hs _ _ hr)
  | instanceof span hl hp ha ht ih =>
    rw [Tree.marks, Tree.words]
    exact ih.joined (.keyword .instanceofWord) (ht.spaced level)

private theorem IsConditional.spaced (hR : Regular sub) (hs : SpacedPhrases level sub)
    (h : IsConditional sub tree) : Spaced (tree.marks level) tree.words := by
  cases h with
  | binary h => exact h.spaced hR hs
  | choice span hc ht he =>
    have hchosen := (hc.spaced hR hs).joined (.punctuator .question) (hs _ _ ht)
    rw [Tree.marks, Tree.words]
    exact hchosen.joined (.punctuator .colon) (hs _ _ he)

private theorem IsAssignment.spaced (hR : Regular sub) (hs : SpacedPhrases level sub)
    (h : IsAssignment sub tree) : Spaced (tree.marks level) tree.words := by
  cases h with
  | conditional h => exact h.spaced hR hs
  | assignment span operator hl hr =>
    rw [Tree.marks, Tree.words, ← operator.text_punctuator]
    exact (hl.spaced hR hs).joined (.punctuator operator.punctuator) (hs _ _ hr)

private theorem spacedPhrases_fits (level depth : Nat) : SpacedPhrases level (Fits depth) := by
  induction depth with
  | zero => exact fun _ _ h => h.elim
  | succ depth ih =>
    have hR := regular_fits depth
    intro l tree h
    cases l with
    | expression => exact IsAssignment.spaced hR ih h
    | conditional => exact IsConditional.spaced hR ih h
    | binary least => exact IsBinary.spaced hR ih h
    | unary => exact IsUnary.spaced hR ih h

/-- An expression is written as its words with single spaces. -/
theorem IsExpression.spaced (h : IsExpression tree) :
    ∃ marks, Spaced marks tree.words ∧ tree.render? = Mark.render? marks := by
  have hopens := h.opens
  obtain ⟨depth, hfits⟩ := h
  refine ⟨_, spacedPhrases_fits 0 depth _ _ hfits, ?_⟩
  unfold Tree.render?
  split
  next => exact absurd rfl hopens.words_ne_nil
  next => exact absurd ⟨depth, hfits⟩ IsExpression.not_compilationUnit
  next => rfl

/-! ## Tokens of expressions -/

variable {wide : Char → Bool} {source : String} {tokens : List Token}

/-- An expression that is read up to the end of the source has the words of the source. -/
theorem words_of_outcome_whole {cursor : Cursor}
    (h : (whole .expression).outcome (.reading ws) = some (tree, cursor)) :
    IsExpression tree ∧ tree.words = ws := by
  rw [whole, outcome_bind_eq_some] at h
  obtain ⟨read, middle, hp, h⟩ := h
  obtain ⟨rest, rfl, hws, hexpr⟩ := sound_expression ws read middle hp
  rw [outcome_bind, outcome_check, Option.bind_some, outcome_ite] at h
  split at h
  next hend =>
    cases h
    have hrest : rest = [] := by
      cases rest with
      | nil => rfl
      | cons w rest => exact absurd (eq_of_beq hend) w.kind_ne_endOfFile
    rw [hws, hrest, List.append_nil]
    exact ⟨hexpr, rfl⟩
  next => cases h

/-- The tokens of a source that is read as an expression are the words of the expression and the end
of the source. -/
theorem tokens_of_parseTreeWith (h : parseTreeWith wide .expression source = .ok tree) :
    ∃ tokens, tokenizeWith wide source = .ok tokens ∧ IsExpression tree.bare ∧
      tokens.map Token.bare = tokensOf tree.bare.words := by
  obtain ⟨tokens, ht, hp⟩ := exists_tokens_of_parseTreeWith h
  obtain ⟨cursor, hcursor⟩ := parseTokens_eq_ok.mp hp
  obtain ⟨ws, hb, -⟩ := Lexer.words_of_tokenizeWith ht
  have hblind := blind_whole .expression (.ofTokens tokens)
  rw [hcursor, bare_ofTokens hb] at hblind
  obtain ⟨hexpr, hwords⟩ := words_of_outcome_whole hblind
  exact ⟨tokens, ht, hexpr, hwords ▸ hb⟩

/-- Tokens that differ from those of some words only in their places have the same texts, and the
last one closes the source. -/
theorem exists_texts_of_tokensOf (h : tokens.map Token.bare = tokensOf ws) :
    ∃ front last, tokens = front ++ [last] ∧ front.map Token.text = ws.map Word.text ∧
      last.kind = .endOfFile ∧ ∀ token ∈ front, token.kind ≠ .endOfFile := by
  obtain ⟨front, ends, rfl, hfront, hends⟩ := List.map_eq_append_iff.mp h
  obtain ⟨last, rfl, hlast⟩ := List.map_eq_singleton_iff.mp hends
  refine ⟨front, last, rfl, ?_, congrArg Token.kind hlast, fun token hmem => ?_⟩
  · have htexts := congrArg (List.map Token.text) hfront
    rwa [List.map_map, List.map_map] at htexts
  · have hbare : token.bare ∈ ws.map Word.token := hfront ▸ List.mem_map_of_mem hmem
    obtain ⟨w, -, hw⟩ := List.mem_map.mp hbare
    rw [← Token.kind_bare, ← hw]
    exact w.kind_ne_endOfFile

end Grammar

namespace Arena

open Grammar

variable {wide : Char → Bool} {source : String} {arena : Arena}

/-- An expression that was read is written as the tokens of its source, in order, with nothing or
one space between two of them. -/
theorem render?_expression (h : parseWith wide .expression source = .ok arena) :
    ∃ (tokens : List Token) (last : Token) (gaps : List String),
      tokenizeWith wide source = .ok (tokens ++ [last]) ∧ last.kind = .endOfFile ∧
      (∀ token ∈ tokens, token.kind ≠ .endOfFile) ∧ gaps.length + 1 = tokens.length ∧
      (∀ gap ∈ gaps, gap = "" ∨ gap = " ") ∧
      arena.render? =
        some (String.join (List.zipWith (· ++ ·) (tokens.map Token.text) (gaps ++ [""]))) := by
  obtain ⟨tree, htree, hholds⟩ := holds_of_parseWith h
  obtain ⟨all, hall, hexpr, hwords⟩ := tokens_of_parseTreeWith htree
  obtain ⟨tokens, last, rfl, htexts, hlast, htokens⟩ := exists_texts_of_tokensOf hwords
  obtain ⟨marks, hspaced, hrender⟩ := hexpr.spaced
  obtain ⟨gaps, hlength, hgaps, hmarks⟩ := hspaced.render?
  refine ⟨tokens, last, gaps, hall, hlast, htokens, ?_, hgaps, ?_⟩
  · have hcount := congrArg List.length htexts
    rw [List.length_map, List.length_map] at hcount
    rw [hlength, hcount]
  · have hbare : (arena.tree arena.root).bare = tree.bare := by
      rw [← bare_spans, hholds.spans]
    rw [Arena.render?, ← Tree.render?_bare, hbare, hrender, hmarks, htexts]

/-- Blanks and comments are dropped, and a space is put in where two operators would run together.
-/
theorem render?_expression_shortened :
    ∃ (arena : Arena) (tokens : List Token) (last : Token) (gaps : List String),
      parse .expression "-  -x /* y */ +f( 1,2 )" = .ok arena ∧
      tokenize "-  -x /* y */ +f( 1,2 )" = .ok (tokens ++ [last]) ∧ last.kind = .endOfFile ∧
      gaps.length + 1 = tokens.length ∧ (∀ gap ∈ gaps, gap = "" ∨ gap = " ") ∧
      arena.render? = some "- -x + f(1, 2)" ∧
      arena.render? =
        some (String.join (List.zipWith (· ++ ·) (tokens.map Token.text) (gaps ++ [""]))) := by
  have hread : (match parse .expression "-  -x /* y */ +f( 1,2 )" with
      | .ok arena => arena.render? == some "- -x + f(1, 2)"
      | .error _ => false) = true := by
    decide +kernel
  cases h : parse .expression "-  -x /* y */ +f( 1,2 )" with
  | error error => simp [h] at hread
  | ok arena =>
    simp only [h, beq_iff_eq] at hread
    obtain ⟨tokens, last, gaps, htokens, hlast, -, hlength, hgaps, hrender⟩ :=
      render?_expression h
    exact ⟨arena, tokens, last, gaps, rfl, htokens, hlast, hlength, hgaps, hread, hrender⟩

end Arena

end JavaFold
