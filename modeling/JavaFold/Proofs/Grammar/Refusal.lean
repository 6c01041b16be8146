import JavaFold.Proofs.Arena.Source
import JavaFold.Proofs.Position
import JavaFold.Proofs.Token.Bytes

/-!
# Refusals point into the source

A refusal by the lexer covers the characters that it could not take, from the place that was reached
(`Lexer.tokensFrom_eq_error`). A refusal by the grammar is about the next token where it was raised,
which is one of the tokens given at first, as tokens are only ever taken from the front
(`Grammar.refusesNext`). Main statement: `ParseError.pointsInto_of_refused`.
-/

namespace JavaFold

namespace ParseError

/-- The token that a refusal by the grammar is about. -/
def token? : ParseError → Option Token
  | unexpectedToken _ found => some found
  | unsupported _ token => some token
  | _ => none

/-- Whether a refusal is about a part of the source, and not about its length or its nodes. -/
def isPlaced : ParseError → Bool
  | sourceTooLarge _ | tree _ => false
  | _ => true

/-- A refusal points at the part of a source that it is about. -/
structure PointsInto (wide : Char → Bool) (source : String) (error : ParseError) : Prop where
  /-- The range does not end before it starts or after the source. -/
  ranged : error.span.start ≤ error.span.stop ∧ error.span.stop ≤ source.utf8ByteSize
  /-- The range starts and ends at a boundary of characters. -/
  bounded : String.Pos.Raw.IsValid source ⟨error.span.start⟩ ∧
    String.Pos.Raw.IsValid source ⟨error.span.stop⟩
  /-- A token that is refused is one of the source, and the range is that of the token. -/
  token : ∀ token, error.token? = some token → error.span = token.span ∧
    ∃ tokens, tokenizeWith wide source = .ok tokens ∧ token ∈ tokens
  /-- A character that is refused is all that stands in the range. -/
  character : ∀ char span, error = .unexpectedCharacter char span →
    span.slice? source = some (String.singleton char)
  /-- The lines and columns before the range are those of the text before it. -/
  position : ∃ before, (Span.mk 0 error.span.start).slice? source = some before ∧
    error.position source = ⟨1 + before.toList.count '\n',
      1 + (before.toList.rtakeWhile (· ≠ '\n')).length⟩

variable {wide : Char → Bool} {source : String} {error : ParseError}

/-- What is left to show of a refusal whose range is one of the source. -/
theorem PointsInto.of_slice? {text : String} (h : error.span.slice? source = some text)
    (htoken : ∀ token, error.token? = some token →
      ∃ tokens, tokenizeWith wide source = .ok tokens ∧ token ∈ tokens)
    (hchar : ∀ char span, error = .unexpectedCharacter char span → text = String.singleton char) :
    error.PointsInto wide source := by
  obtain ⟨hstart, hstop⟩ := Span.isValid_of_slice? h
  refine ⟨⟨Span.le_of_slice? h, ?_⟩, ⟨hstart, hstop⟩, fun token ht => ⟨?_, htoken token ht⟩, ?_,
    Span.exists_position_eq_after hstart⟩
  · obtain ⟨front, back, hsource, hsize⟩ := isValid_iff_exists_front.1 hstop
    rw [utf8ByteSize_eq, hsource, byteLength_append]
    omega
  · cases error <;> cases ht <;> rfl
  · rintro char span rfl
    rw [← hchar char span rfl]
    exact h

private theorem PointsInto.of_nowhere (h : error.span = .nowhere)
    (hplaced : error.isPlaced = false) :
    error.PointsInto wide source := by
  have hslice : error.span.slice? source = some (String.ofList []) := by
    rw [h]
    exact Span.slice?_of_toList [] [] source.toList rfl
  refine .of_slice? hslice ?_ ?_
  · intro token ht
    cases error with
    | sourceTooLarge | tree => cases ht
    | _ => cases hplaced
  · rintro char span rfl
    cases hplaced

end ParseError

/-! ## Refusals by the lexer -/

namespace Lexer

variable {wide : Char → Bool} {source : String} {error : ParseError} {front input : List Char}
  {start : Nat}

/-- What comes after the characters of a lexeme. -/
theorem toList_of_scan {c : Char} {kind : Option TokenKind} {text rest : List Char}
    (h : source.toList = front ++ c :: input) (hscan : scan wide c input = .lexeme kind text rest) :
    source.toList = (front ++ text) ++ rest := by
  have hsplits := scan_splits wide c input
  rw [hscan] at hsplits
  rw [h, ← hsplits.2, List.append_assoc]

/-- The lexer refuses characters that stand where it has come to, and a single character because of
itself. -/
theorem tokensFrom_eq_error (front : List Char) (h : tokensFrom wide start input = .error error)
    (hsource : source.toList = front ++ input) (hstart : start = byteLength front) :
    ∃ fault span text, error = Fault.error span fault ∧
      span.slice? source = some (String.ofList text) ∧
      ∀ char, fault = .character char → text = [char] := by
  fun_induction tokensFrom wide start input generalizing front with
  | case1 => cases h
  | case2 start c input fault text hscan =>
    cases h
    have hsplits := scan_splits wide c input
    rw [hscan] at hsplits
    obtain ⟨-, rest, happ⟩ := hsplits
    rw [← happ] at hsource
    refine ⟨fault, _, text, rfl, ?_, ?_⟩
    · rw [hstart]
      exact Span.slice?_of_toList front text rest hsource
    · rintro char rfl
      obtain ⟨rfl, rfl⟩ := scan_eq_character hscan
      rfl
  | case3 start c input text rest stop hscan _ _ ih =>
    exact ih _ h (toList_of_scan hsource hscan) (by rw [byteLength_append, ← hstart])
  | case4 start c input text rest stop kind hscan _ _ ih =>
    cases hr : tokensFrom wide stop rest with
    | ok tokens =>
      rw [hr] at h
      cases h
    | error error' =>
      rw [hr] at h
      cases h
      exact ih _ hr (toList_of_scan hsource hscan) (by rw [byteLength_append, ← hstart])

end Lexer

/-! ## Refusals by the grammar -/

namespace Grammar

variable {goal : Goal} {tokens : List Token} {error : ParseError}

/-- A production takes tokens from the front, never the last one, and is refused because of the next
one. -/
def refusesNext : Law Cursor where
  Moves c c' := c.rest ≠ [] → c'.rest ≠ [] ∧ c'.rest <:+ c.rest
  Refuses c error := error.token? = some c.current
  refl c h := ⟨h, List.suffix_refl c.rest⟩
  trans hab hbc ha := by
    obtain ⟨hb, hsuffix⟩ := hab ha
    obtain ⟨hc, hsuffix'⟩ := hbc hb
    exact ⟨hc, hsuffix'.trans hsuffix⟩
  advance c h := by
    unfold Cursor.advance
    split
    next hrest =>
      rw [hrest]
      exact ⟨List.cons_ne_nil _ _, List.suffix_cons _ _⟩
    next => exact ⟨h, List.suffix_refl _⟩
  unexpected _ _ := rfl
  unsupported _ _ := rfl
  build h := nomatch h

/-- The grammar refuses one of the tokens it was given. -/
theorem mem_of_parseTokens (hne : tokens ≠ []) (h : parseTokens goal tokens = .error error) :
    ∃ token ∈ tokens, error.token? = some token := by
  have hobeys := (obeys_whole goal : Obeys refusesNext _) (.ofTokens tokens)
  rw [parseTokens] at h
  cases hr : (whole goal).run (Cursor.ofTokens tokens) with
  | ok tree cursor => simp [hr] at h
  | error error' cursor =>
    rw [hr] at h hobeys
    cases h
    obtain ⟨hrest, hsuffix⟩ := hobeys.1 hne
    refine ⟨cursor.current, hsuffix.subset ?_, hobeys.2⟩
    rw [Cursor.current]
    cases hc : cursor.rest with
    | nil => exact absurd hc hrest
    | cons token rest => exact List.mem_cons_self

end Grammar

/-! ## All refusals -/

namespace ParseError

variable {wide : Char → Bool} {goal : Goal} {source : String} {error : ParseError}
  {tokens : List Token}

/-- The token that the grammar refuses is one of the source. -/
theorem exists_token_of_parseTokens (ht : tokenizeWith wide source = .ok tokens)
    (h : parseTokens goal tokens = .error error) :
    ∃ token ∈ tokens, error.token? = some token ∧ token.span.slice? source = some token.text := by
  have htiles := tiles_of_tokensFrom (Lexer.tokensFrom_of_tokenizeWith ht)
  have hne : tokens ≠ [] := by
    obtain ⟨front, rfl, -⟩ := htiles.closed
    exact List.append_ne_nil_of_right_ne_nil _ (List.cons_ne_nil _ _)
  obtain ⟨token, hmem, htoken⟩ := Grammar.mem_of_parseTokens hne h
  exact ⟨token, hmem, htoken, htiles.sliced token hmem⟩

/-- An error of the lexer points at a character of the source or at its end. -/
private theorem PointsInto.of_tokenizeWith (h : tokenizeWith wide source = .error error) :
    error.PointsInto wide source := by
  rw [tokenizeWith] at h
  split at h
  · cases h
    exact .of_nowhere rfl rfl
  · obtain ⟨fault, span, text, rfl, hslice, hchar⟩ := Lexer.tokensFrom_eq_error [] h rfl rfl
    have hrange : (fault.error span).span.slice? source = some (String.ofList text) := by
      cases fault <;> exact hslice
    refine .of_slice? hrange ?_ ?_
    · intro token ht
      cases fault <;> cases ht
    · intro char span' he
      cases fault with
      | character c =>
        cases he
        rw [hchar char rfl]
        rfl
      | comment | literal => cases he

private theorem PointsInto.of_parseTokens (ht : tokenizeWith wide source = .ok tokens)
    (h : parseTokens goal tokens = .error error) : error.PointsInto wide source := by
  obtain ⟨token, hmem, htoken, hslice⟩ := exists_token_of_parseTokens ht h
  have hrange : error.span.slice? source = some token.text := by
    rw [← hslice]
    cases error <;> cases htoken <;> rfl
  refine .of_slice? hrange ?_ ?_
  · intro token' ht'
    cases htoken.symm.trans ht'
    exact ⟨tokens, ht, hmem⟩
  · rintro char span rfl
    cases htoken

private theorem PointsInto.of_parseWith (h : Arena.parseWith wide goal source = .error error) :
    error.PointsInto wide source := by
  rcases Arena.parseWith_eq_error h with h | ⟨tokens, ht, h | ⟨-, violation, rfl⟩⟩
  · exact .of_tokenizeWith h
  · exact .of_parseTokens ht h
  · exact .of_nowhere rfl rfl

private theorem isPlaced_of_tokenizeWith (h : tokenizeWith wide source = .error error)
    (hsize : source.utf8ByteSize ≤ maxSourceBytes) : error.isPlaced = true := by
  rw [tokenizeWith, if_neg (Nat.not_lt.2 hsize)] at h
  obtain ⟨fault, span, text, rfl, -⟩ := Lexer.tokensFrom_eq_error [] h rfl rfl
  cases fault <;> rfl

private theorem isPlaced_of_parseWith (h : Arena.parseWith wide goal source = .error error)
    (hsize : source.utf8ByteSize ≤ maxSourceBytes)
    (hnodes : ∀ tokens, tokenizeWith wide source = .ok tokens →
      (Arena.filled goal tokens).size ≤ NodeId.maxIndex) : error.isPlaced = true := by
  rcases Arena.parseWith_eq_error h with h | ⟨tokens, ht, h | ⟨hmore, -⟩⟩
  · exact isPlaced_of_tokenizeWith h hsize
  · obtain ⟨token, -, htoken, -⟩ := exists_token_of_parseTokens ht h
    cases error <;> first | rfl | cases htoken
  · exact absurd hmore (Nat.not_lt.2 (hnodes tokens ht))

/-- Every refusal, by the lexer or on reading a source as any goal, points at a part of the source.
If the source is not too long and there are handles for its nodes, the refusal is about this part.
-/
theorem pointsInto_of_refused (wide : Char → Bool) (source : String) (error : ParseError)
    (h : tokenizeWith wide source = .error error ∨
      ∃ goal, Arena.parseWith wide goal source = .error error) :
    error.PointsInto wide source ∧
    (source.utf8ByteSize ≤ maxSourceBytes →
      (∀ goal tokens, tokenizeWith wide source = .ok tokens →
        (Arena.filled goal tokens).size ≤ NodeId.maxIndex) → error.isPlaced = true) := by
  rcases h with h | ⟨goal, h⟩
  · exact ⟨.of_tokenizeWith h, fun hsize _ => isPlaced_of_tokenizeWith h hsize⟩
  · exact ⟨.of_parseWith h, fun hsize hnodes => isPlaced_of_parseWith h hsize (hnodes goal)⟩

/-- An operand is missing on the second line, after characters of two bytes. -/
theorem pointsInto_of_refused_operand :
    ∃ error, Arena.parse .expression "ä +\n é*)" = .error error ∧ error.span = ⟨9, 10⟩ ∧
      error.position "ä +\n é*)" = ⟨2, 4⟩ ∧
      error.PointsInto Text.isAlphanumeric "ä +\n é*)" ∧ error.isPlaced = true := by
  have hnodes : ∀ goal tokens, tokenizeWith Text.isAlphanumeric "ä +\n é*)" = .ok tokens →
      (Arena.filled goal tokens).size ≤ NodeId.maxIndex := by
    have hsmall : ∀ goal, (match tokenizeWith Text.isAlphanumeric "ä +\n é*)" with
        | .ok tokens => decide ((Arena.filled goal tokens).size ≤ NodeId.maxIndex)
        | .error _ => true) = true := by
      intro goal
      cases goal <;> decide +kernel
    intro goal tokens h
    simpa [h] using hsmall goal
  have hread : (match Arena.parse .expression "ä +\n é*)" with
      | .ok _ => false
      | .error error =>
        error.span == ⟨9, 10⟩ && error.position "ä +\n é*)" == ⟨2, 4⟩) = true := by
    decide +kernel
  cases h : Arena.parse .expression "ä +\n é*)" with
  | ok arena => simp [h] at hread
  | error error =>
    obtain ⟨hspan, hposition⟩ :
        error.span = ⟨9, 10⟩ ∧ error.position "ä +\n é*)" = ⟨2, 4⟩ := by simpa [h] using hread
    obtain ⟨hpoints, hplaced⟩ := pointsInto_of_refused _ _ error (.inr ⟨_, h⟩)
    exact ⟨error, rfl, hspan, hposition, hpoints, hplaced (by decide) hnodes⟩

end ParseError

end JavaFold
