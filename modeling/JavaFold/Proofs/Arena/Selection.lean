import JavaFold.Proofs.Arena.Matching
import JavaFold.Proofs.Token.Utf8

/-!
# Members selected from numbers

A number, the point after it and the name of a member are written without a blank in between, so it
is for the lexer to tell the point from that of a fraction. It does by the characters next to the
point: a number that ends with a point is cut off before it, and a number of digits only takes the
point if the name starts with a letter that can stand in a number after its point, or with one
outside ASCII (`Lexer.Separable`). The text of a selection is read as this selection in all other
cases, and in no other case.
-/

namespace JavaFold

namespace Lexer

variable {wide : Char → Bool} {taken name tail : List Char}

/-- Whether the point between a number and a name belongs to neither. -/
def Separable (number name : List Char) : Prop :=
  number.getLast? ≠ some '.' ∧
    ((∀ c ∈ number, (c.isDigit || c = '_') = true) →
      ∀ c ∈ name.head?, isWide c = false ∧ c ∉ "eEfFdD".toList)

instance (number name : List Char) : Decidable (Separable number name) :=
  @instDecidableAnd _ _ inferInstance
    (@forall_prop_decidable _ _ (List.decidableBAll _ number) fun _ =>
      Option.decidableForallMem name.head?)

/-- The point before a name belongs to the number before it by the first letter of the name. -/
theorem pointContinues_name {c : Char} (h : startsWord c = true) (tail : List Char) :
    pointContinues (c :: tail) = false ↔ isWide c = false ∧ c ∉ "eEfFdD".toList := by
  obtain ⟨-, -, hdigit, hpoint⟩ := startsWord_facts h
  have hstart : isIdentifierStart c = !isWide c := by
    cases hw : isWide c with
    | true => exact narrow_isIdentifierStart c hw
    | false => simpa [startsWord, hw] using h
  simp [pointContinues, hdigit, hpoint, hstart]

/-- A point and a name after a number do not go on with it exactly if the point can be told from
that of a fraction. -/
theorem endsNumber_point_iff (hname : IsIdentifier wide name) :
    EndsNumber taken ('.' :: (name ++ tail)) ↔ Separable taken name := by
  obtain ⟨c, cs, rfl, hstart⟩ := hname.start
  have hfraction : fraction ('.' :: (c :: cs ++ tail)) = ([], '.' :: (c :: cs ++ tail)) ↔
      isWide c = false ∧ c ∉ "eEfFdD".toList := by
    rw [List.cons_append, ← pointContinues_name hstart (cs ++ tail), fraction]
    split <;> simp_all
  constructor
  · intro h
    refine ⟨fun hlast => (by cases h.point hlast), fun hdigits _ hc => ?_⟩
    cases hc
    exact hfraction.1 (h.whole hdigits)
  · rintro ⟨hlast, hwhole⟩
    exact ⟨stops_cons.2 rfl, fun h => absurd h hlast, fun h => hfraction.2 (hwhole h c rfl)⟩

private theorem exists_cons_of_startsNumber {input : List Char} (h : startsNumber input = true) :
    ∃ c cs, input = c :: cs := by
  cases input with
  | nil => simp [startsNumber] at h
  | cons c cs => exact ⟨c, cs, rfl⟩

private theorem tokensFrom_number {t : String} (hs : startsNumber t.toList = true)
    (h : number t.toList = (t.toList, [])) (ht : EndsNumber t.toList tail) (start : Nat) :
    tokensFrom wide start (t.toList ++ tail) = do
      let tokens ← tokensFrom wide (start + byteLength t.toList) tail
      return ⟨.number, t, ⟨start, start + byteLength t.toList⟩⟩ :: tokens := by
  obtain ⟨c, cs, hcs⟩ := exists_cons_of_startsNumber hs
  have htext : String.ofList (c :: cs) = t := by rw [← hcs, String.ofList_toList]
  rw [hcs] at hs h ht ⊢
  rw [List.cons_append, tokensFrom_cons (scan_number hs h ht), htext]

/-- A number is the first token of a text only if what follows does not go on with it. -/
theorem number_eq_of_tokensFrom {t : String} {start : Nat} {tokens : List Token} {ws : List Word}
    (hs : startsNumber t.toList = true) (h : number t.toList = (t.toList, []))
    (htokens : tokensFrom wide start (t.toList ++ tail) = .ok tokens)
    (hbare : tokens.map Token.bare = tokensOf (.number t :: ws)) :
    number (t.toList ++ tail) = (t.toList, tail) := by
  obtain ⟨c, cs, hcs⟩ := exists_cons_of_startsNumber hs
  have hstarts : startsNumber (t.toList ++ tail) = true := startsNumber_again hs h
  have happ := number_append (t.toList ++ tail)
  obtain ⟨text, rest, hnumber⟩ : ∃ text rest, number (t.toList ++ tail) = (text, rest) :=
      ⟨_, _, rfl⟩
  have hscan : scan wide c (cs ++ tail) = .lexeme (some .number) text rest := by
    rw [hcs, List.cons_append] at hstarts hnumber
    rw [scan_of_startsNumber hstarts, hnumber]
  have htext : text = t.toList := by
    rw [hcs, List.cons_append, tokensFrom_cons hscan] at htokens
    cases hr : tokensFrom wide (start + byteLength text) rest with
    | error error =>
      rw [hr] at htokens
      cases htokens
    | ok tokens =>
      rw [hr] at htokens
      cases htokens
      have htoken := (List.cons.inj hbare).1
      have := congrArg Token.text htoken
      simpa [Token.bare, Word.token, Word.text] using congrArg String.toList this
  rw [hnumber, htext] at happ
  rw [hnumber, htext, show rest = tail from List.append_cancel_left happ]

end Lexer

namespace Grammar

/-- A member of a number: a field, or a method that is called without arguments. -/
def selection (call : Bool) (number name : String) : SourceTree :=
  let operand : SourceTree := .node .nowhere (.numberLiteral number)
  let member : SourceTree := .node .nowhere (.simpleName name)
  .node .nowhere (if call then .methodInvocation operand member [] else .fieldAccess operand member)

/-- How a call without arguments ends. -/
def callEnd (call : Bool) : String :=
  if call then "()" else ""

private theorem isExpression_selection (call : Bool) (number name : String) :
    IsExpression (selection call number name) := by
  have hoperand : IsSelected (Fits 0) (.node .nowhere (.numberLiteral number)) :=
    .primary (.number .nowhere number)
  have hmember : IsSimpleName (.node .nowhere (.simpleName name)) := .intro .nowhere name
  have hselected : IsSelected (Fits 0) (selection call number name) := by
    cases call with
    | true => exact .call .nowhere hoperand hmember nofun
    | false => exact .field .nowhere hoperand nofun hmember
  exact ⟨1, .conditional (.binary (.unary (.postfixed (.selected hselected))))⟩

private theorem text?_selection (call : Bool) (number name : String) :
    (selection call number name).text? = some (number ++ "." ++ name ++ callEnd call) := by
  cases call with
  | true =>
    have hmarks : (selection true number name).marks 0 =
      [.text number, .text ".", .text name, .text "(", .text ")"] := rfl
    rw [Tree.text?, hmarks]
    simp [Mark.render?, Mark.written?, String.join, callEnd, String.append_assoc]
  | false =>
    have hmarks : (selection false number name).marks 0 =
      [.text number, .text ".", .text name] := rfl
    rw [Tree.text?, hmarks]
    simp [Mark.render?, Mark.written?, String.join, callEnd]

private theorem words_selection (call : Bool) (number name : String) :
    (selection call number name).words = .number number :: .punctuator .dot :: .identifier name ::
      if call then [.punctuator .lparen, .punctuator .rparen] else [] := by
  cases call <;> rfl

variable {wide : Char → Bool} {call : Bool} {number name : String}

/-- The point, the name and the end of a selection are cut into their words. -/
theorem cuts_member (hn : Lexer.Lexeme wide (.identifier name)) :
    Lexer.Cuts wide ('.' :: (name.toList ++ (callEnd call).toList))
      (.punctuator .dot :: .identifier name ::
        if call then [.punctuator .lparen, .punctuator .rparen] else []) := by
  obtain ⟨c, cs, hcs, hstart⟩ := hn.1.start
  have hend : Lexer.Cuts wide (callEnd call).toList
      (if call then [.punctuator .lparen, .punctuator .rparen] else []) := by
    cases call with
    | true =>
      exact .word (w := .punctuator .lparen) trivial (by rintro _ ⟨⟩; exact
          ⟨by decide, nofun, nofun⟩)
        (.word (w := .punctuator .rparen) trivial nofun .nil)
    | false => exact .nil
  refine .word (w := .punctuator .dot) trivial ?_ (.word hn ?_ hend)
  · show ∀ d ∈ (name.toList ++ (callEnd call).toList).head?, _
    rw [hcs]
    rintro _ ⟨⟩
    exact Lexer.endsBefore_startsWord .dot hstart
  · cases call with
    | true => rintro _ ⟨⟩; rfl
    | false => nofun

/-- The words of a tree stand first among those it was read from. -/
theorem words_of_parseTokens {tokens : List Token} {ws : List Word} {tree : SourceTree}
    (ht : tokens.map Token.bare = tokensOf ws) (h : parseTokens .expression tokens = .ok tree) :
    ∃ rest, ws = tree.bare.words ++ rest := by
  obtain ⟨cursor, h⟩ := parseTokens_eq_ok.mp h
  have hblind := blind_whole .expression (.ofTokens tokens)
  rw [h, bare_ofTokens ht] at hblind
  obtain ⟨cursor', hp⟩ := outcome_whole_eq_some hblind
  obtain ⟨rest, -, hw, -⟩ := sound_expression _ _ _ hp
  exact ⟨rest, hw⟩

private theorem bare_selection (call : Bool) (number name : String) :
    (selection call number name).bare = selection call number name := by
  cases call <;> rfl

private theorem size_of_tokenizeWith {source : String} {tokens : List Token}
    (h : tokenizeWith wide source = .ok tokens) : source.utf8ByteSize ≤ maxSourceBytes := by
  rw [tokenizeWith] at h
  split at h
  · cases h
  · exact Nat.le_of_not_lt ‹_›

private theorem toList_selection (call : Bool) (number name : String) :
    (number ++ "." ++ name ++ callEnd call).toList =
      number.toList ++ '.' :: (name.toList ++ (callEnd call).toList) := by
  simp

/-- The text of a selection is read as this selection exactly if it is not too long and the point
can be told from that of a fraction. -/
theorem parseTreeWith_selection_iff (ht : Lexer.Lexeme wide (.number number))
    (hn : Lexer.Lexeme wide (.identifier name)) :
    (∃ tree, parseTreeWith wide .expression (number ++ "." ++ name ++ callEnd call) = .ok tree ∧
        tree.bare = selection call number name) ↔
      (number ++ "." ++ name ++ callEnd call).utf8ByteSize ≤ maxSourceBytes ∧
        Lexer.Separable number.toList name.toList := by
  have hends : Lexer.EndsNumber number.toList ('.' :: (name.toList ++ (callEnd call).toList)) ↔
      Lexer.Separable number.toList name.toList := Lexer.endsNumber_point_iff hn.1
  rw [← hends]
  constructor
  · rintro ⟨tree, hparse, hbare⟩
    obtain ⟨tokens, htokens, hp⟩ := exists_tokens_of_parseTreeWith hparse
    obtain ⟨ws, hb, -⟩ := Lexer.words_of_tokenizeWith htokens
    obtain ⟨rest, rfl⟩ := words_of_parseTokens hb hp
    have hfrom := Lexer.tokensFrom_of_tokenizeWith htokens
    rw [toList_selection] at hfrom
    rw [hbare, words_selection] at hb
    have hnumber := Lexer.number_eq_of_tokensFrom ht.1 ht.2 hfrom hb
    exact ⟨size_of_tokenizeWith htokens, Lexer.number_ends hnumber (Lexer.stops_cons.2 rfl)⟩
  · rintro ⟨hsize, hends⟩
    have hcuts : Lexer.Cuts wide ('.' :: (name.toList ++ (callEnd call).toList)) _ :=
      cuts_member hn
    obtain ⟨tokens, htokens, hb⟩ := hcuts.tokensFrom (0 + byteLength number.toList)
    have hfrom : Lexer.tokensFrom wide 0 _ = _ := Lexer.tokensFrom_number ht.1 ht.2 hends 0
    rw [htokens] at hfrom
    have hwords : ((⟨.number, number, ⟨0, 0 + byteLength number.toList⟩⟩ :: tokens).map
        Token.bare) = tokensOf (selection call number name).words := by
      rw [List.map_cons, hb, words_selection, tokensOf_cons]
      rfl
    have hexpression : Describes .expression (selection call number name) :=
      isExpression_selection call number name
    obtain ⟨tree, hparse, hbare⟩ := parseTokens_of_describes hexpression hwords
    refine ⟨tree, ?_, hbare.trans (bare_selection call number name)⟩
    rw [parseTreeWith, tokenizeWith, if_neg (Nat.not_lt.mpr hsize), toList_selection, hfrom]
    exact hparse

/-- The text of a word that is the only one of a source is the source itself, if it can be cut out
again as it stands. -/
theorem text_of_tokenizeWith {source : String} {word : Word} {token last : Token}
    (h : tokenizeWith wide source = .ok [token, last]) (hw : Lexer.Lexeme wide word)
    (hs : word.text = source) : token.text = source := by
  have hcuts : Lexer.Cuts wide (word.text.toList ++ []) [word] := .word hw nofun .nil
  obtain ⟨tokens, htokens, hb⟩ := hcuts.tokensFrom 0
  rw [List.append_nil, hs, Lexer.tokensFrom_of_tokenizeWith h] at htokens
  cases htokens
  exact (congrArg Token.text (List.cons.inj hb).1).trans hs

/-- The text of the only word of a source can be cut out. -/
theorem lexeme_of_tokenizeWith {source : String} {token last : Token}
    (h : tokenizeWith wide source = .ok [token, last]) :
    ∃ word, Lexer.Lexeme wide word ∧ word.kind = token.kind ∧ word.text = token.text := by
  obtain ⟨ws, hb, hws⟩ := Lexer.words_of_tokenizeWith h
  cases ws with
  | nil => cases congrArg List.length hb
  | cons w ws =>
    have hword : token.bare = w.token := (List.cons.inj hb).1
    exact ⟨w, hws w List.mem_cons_self, (congrArg Token.kind hword).symm,
      (congrArg Token.text hword).symm⟩

private theorem lexeme_number {source : String} {token last : Token}
    (h : tokenizeWith wide source = .ok [token, last]) (hk : token.kind = .number) :
    Lexer.Lexeme wide (.number token.text) := by
  obtain ⟨word, hw, hkind, htext⟩ := lexeme_of_tokenizeWith h
  rw [hk] at hkind
  cases word <;> cases hkind
  exact htext ▸ hw

private theorem lexeme_identifier {source : String} {token last : Token}
    (h : tokenizeWith wide source = .ok [token, last]) (hk : token.kind = .identifier) :
    Lexer.Lexeme wide (.identifier token.text) := by
  obtain ⟨word, hw, hkind, htext⟩ := lexeme_of_tokenizeWith h
  rw [hk] at hkind
  cases word <;> cases hkind
  exact htext ▸ hw

end Grammar

namespace Arena

open Grammar

variable {wide : Char → Bool} {a : Arena} {id : NodeId} {t n : String}
  {number name last last' : Token}

/-- A member that is selected from a number is written without blanks. The text is read as a
selection that matches exactly if number and name have nothing around them, the text is not too
long, and the point can be told from that of a fraction. -/
theorem renderNode?_selection (call : Bool) (ha : a.Reachable)
    (ht : tokenizeWith wide t = .ok [number, last]) (htk : number.kind = .number)
    (hn : tokenizeWith wide n = .ok [name, last']) (hnk : name.kind = .identifier)
    (hc : a.contains id = true) (htree : (a.tree id).bare = selection call t n) :
    ∃ text, a.renderNode? id = some text ∧ (id = a.root → a.render? = some text) ∧
      ((∃ b, parseWith wide .expression text = .ok b ∧ a.mismatch? id b b.root = none) ↔
        number.text = t ∧ name.text = n ∧ text.utf8ByteSize ≤ maxSourceBytes ∧
          Lexer.Separable t.toList n.toList) := by
  have htext : (a.tree id).text? = some (t ++ "." ++ n ++ callEnd call) := by
    rw [← Tree.text?_bare, htree, text?_selection]
  refine ⟨_, by rw [renderNode?, if_pos hc, htext], ?_, ?_⟩
  · rintro rfl
    rw [render?, ← Tree.render?_bare, htree, ← text?_selection]
    cases call <;> rfl
  constructor
  · rintro ⟨b, hparse, hmatch⟩
    obtain ⟨tree, hread, hholds⟩ := holds_of_parseWith hparse
    obtain ⟨view, hview⟩ := ha.exists_shows
    have hbare : tree.bare = selection call t n := by
      rw [← htree, (mismatch?_eq_none_iff hview hholds.built.linked.shows hc hholds.rooted).1 hmatch,
        ← bare_spans, hholds.spans]
    obtain ⟨-, hwords⟩ := describes_of_parseTreeWith hread
    rw [hbare, words_selection] at hwords
    have hnumber : Lexer.Lexeme wide (.number t) := hwords _ (by simp)
    have hname : Lexer.Lexeme wide (.identifier n) := hwords _ (by simp)
    exact ⟨text_of_tokenizeWith ht hnumber rfl, text_of_tokenizeWith hn hname rfl,
      (parseTreeWith_selection_iff hnumber hname).1 ⟨tree, hread, hbare⟩⟩
  · rintro ⟨rfl, rfl, h⟩
    obtain ⟨tree, hread, hbare⟩ := (parseTreeWith_selection_iff (lexeme_number ht htk)
      (lexeme_identifier hn hnk)).2 h
    have hsize : (a.tree id).preorder.length ≤ NodeId.maxIndex := by
      rw [← Tree.length_preorder_bare, htree]
      cases call <;> exact (by decide : 3 ≤ NodeId.maxIndex)
    obtain ⟨b, hparse, hmatch, -⟩ := parseWith_of_bare hc hsize hread (hbare.trans htree.symm)
    exact ⟨b, hparse, hmatch⟩

/-- A method of a fraction whose name starts as an exponent does. -/
theorem renderNode?_selection_fraction :
    let a := [Operation.intern "1.5", .intern "e", .alloc (.numberLiteral ⟨1⟩) ⟨0, 3⟩,
      .alloc (.simpleName ⟨2⟩) ⟨4, 5⟩, .alloc (.methodInvocation ⟨0⟩ ⟨1⟩ []) ⟨0, 7⟩].foldl
        Operation.perform .empty
    a.renderNode? ⟨2⟩ = some "1.5.e()" ∧
      ∃ b, parse .expression "1.5.e()" = .ok b ∧ a.mismatch? ⟨2⟩ b b.root = none := by
  intro a
  have hrender : a.renderNode? ⟨2⟩ = some "1.5.e()" := by decide +kernel
  have hnumber : tokenize "1.5" = .ok [⟨.number, "1.5", ⟨0, 3⟩⟩, .endOfFile 3] := by decide +kernel
  have hname : tokenize "e" = .ok [⟨.identifier, "e", ⟨0, 1⟩⟩, .endOfFile 1] := by decide +kernel
  have htree : (a.tree ⟨2⟩).bare = selection true "1.5" "e" := by with_unfolding_all rfl
  obtain ⟨text, htext, -, hread⟩ := renderNode?_selection true
      (Reachable.empty.performAll _) hnumber
    rfl hname rfl (by decide) htree
  cases Option.some.inj (hrender.symm.trans htext)
  exact ⟨hrender, hread.2 ⟨rfl, rfl, by decide, by decide⟩⟩

/-- A method of a whole number whose name starts as an exponent does: the point is taken for that of
a fraction, and what is left is no expression. -/
theorem renderNode?_selection_refused :
    let a := [Operation.intern "1", .intern "equals", .alloc (.numberLiteral ⟨1⟩) ⟨0, 1⟩,
      .alloc (.simpleName ⟨2⟩) ⟨3, 9⟩, .alloc (.methodInvocation ⟨0⟩ ⟨1⟩ []) ⟨0, 11⟩].foldl
        Operation.perform .empty
    tokenize "1" = .ok [⟨.number, "1", ⟨0, 1⟩⟩, .endOfFile 1] ∧
      tokenize "equals" = .ok [⟨.identifier, "equals", ⟨0, 6⟩⟩, .endOfFile 6] ∧
      (a.tree ⟨2⟩).bare = selection true "1" "equals" ∧
      (∃ arena, parse .expression "1 .equals()" = .ok arena ∧
        arena.mismatch? arena.root a ⟨2⟩ = none) ∧
      a.renderNode? ⟨2⟩ = some "1.equals()" ∧
      ∃ error, parse .expression "1.equals()" = .error error := by
  intro a
  have hread : (match parse .expression "1 .equals()" with
      | .ok arena => (arena.mismatch? arena.root a ⟨2⟩).isNone
      | .error _ => false) = true := by
    decide +kernel
  have hrefused : (match parse .expression "1.equals()" with
      | .ok _ => false
      | .error _ => true) = true := by
    decide +kernel
  refine ⟨by decide +kernel, by decide +kernel, by with_unfolding_all rfl, ?_,
    by decide +kernel, ?_⟩
  · cases h : parse .expression "1 .equals()" with
    | error error => simp [h] at hread
    | ok arena => exact ⟨arena, rfl, by simpa [h] using hread⟩
  · cases h : parse .expression "1.equals()" with
    | ok arena => simp [h] at hrefused
    | error error => exact ⟨error, rfl⟩

end Arena

end JavaFold
