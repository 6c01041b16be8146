import JavaFold.Proofs.Token.Tiling
import JavaFold.Proofs.Token.Utf8

/-!
# Cutting a source byte by byte

The lexer can go through the bytes of a source instead of its characters (`tokenizeBytes?`). Words
and refused characters are then sliced out of the source at the offset reached, and there is no
slice off the boundaries of characters (`Span.slice?`). Main statement: this never happens, and the
tokens or the refusal are the same (`tokenizeBytes?_eq`).
-/

namespace JavaFold

namespace Lexer

variable {wide : Char → Bool} {input rest : List Char} {b c : Char}

/-! ## Words, lexemes and tokens at an offset -/

/-- The character at an offset of a source, unless the offset is inside a character. -/
def charAt? (source : String) (offset : Nat) : Option Char :=
  ((Span.mk offset source.utf8ByteSize).slice? source).map fun text =>
    text.toList.headD '\uFFFD'

/-- Where the word ends that goes on at an offset, with the bytes from there on. Outside ASCII the
character that starts at the offset is asked for. -/
def wordEnd? (wide : Char → Bool) (source : String) (offset : Nat) (bytes : List Char) :
    Option Nat :=
  match bytes with
  | [] => some offset
  | b :: rest =>
    if isWide b then do
      let c ← charAt? source offset
      if wide c then wordEnd? wide source (offset + c.utf8Size) ((b :: rest).drop c.utf8Size)
      else some offset
    else if isIdentifierStart b || b.isDigit then wordEnd? wide source (offset + 1) rest
    else some offset
termination_by bytes.length
decreasing_by
  · have := c.utf8Size_pos
    simp only [List.length_drop, List.length_cons]
    omega
  · simp

/-- The refusal of the character at an offset. -/
def refuseAt? (source : String) (start : Nat) : Option ParseError :=
  (charAt? source start).map fun c => .unexpectedCharacter c ⟨start, start + c.utf8Size⟩

/-- The class of the lexeme at an offset, with the number of its bytes after the first. -/
def scanAt? (wide : Char → Bool) (source : String) (start : Nat) (b : Char) (rest : List Char) :
    Option (Except ParseError (Option TokenKind × Nat)) :=
  if startsWord b then do
    let stop ← wordEnd? wide source start (b :: rest)
    if stop = start then (refuseAt? source start).map .error
    else do
      let text ← (Span.mk start stop).slice? source
      let kind := match Keyword.ofText? text with
        | some keyword => .keyword keyword
        | none => .identifier
      return .ok (some kind, stop - start - 1)
  else match scan wide b rest with
  | .lexeme kind text _ => some (.ok (kind, text.length - 1))
  | .fault (.character _) _ => (refuseAt? source start).map .error
  | .fault fault text => some (.error (fault.error ⟨start, start + text.length⟩))

/-- The tokens of a source from an offset on, with the bytes from there on. -/
def tokensAt? (wide : Char → Bool) (source : String) (start : Nat) (bytes : List Char) :
    Option (Except ParseError (List Token)) :=
  match bytes with
  | [] => some (.ok [.endOfFile start])
  | b :: rest => do
    match ← scanAt? wide source start b rest with
    | .error error => return .error error
    | .ok (kind, more) =>
      let stop := start + (more + 1)
      let tokens ← tokensAt? wide source stop (rest.drop more)
      match kind with
      | none => return tokens
      | some kind =>
        let text ← (Span.mk start stop).slice? source
        return tokens.map (⟨kind, text, ⟨start, stop⟩⟩ :: ·)
termination_by bytes.length
decreasing_by
  simp only [List.length_drop, List.length_cons]
  omega

/-! ## The offsets reached are those of characters -/

section

variable {source : String} {front : List Char}

private theorem charAt?_of_toList (h : source.toList = front ++ c :: input) :
    charAt? source (byteLength front) = some c := by
  have hsize : source.utf8ByteSize = byteLength front + byteLength (c :: input) := by
    rw [utf8ByteSize_eq, h, byteLength_append]
  have hslice := Span.slice?_of_toList front (c :: input) [] (by simpa using h)
  rw [charAt?, hsize, hslice, Option.map_some, String.toList_ofList]
  rfl

/-- What follows the bytes of a character. -/
theorem drop_utf8 (c : Char) (input : List Char) :
    (utf8 (c :: input)).drop c.utf8Size = utf8 input := by
  have hlength : (utf8 [c]).length = c.utf8Size := by simpa using length_utf8 [c]
  rw [utf8_cons, ← hlength, List.drop_left]

/-- The end of a word is found from its first byte on, one character at a time. -/
private theorem wordEnd?_utf8 (h : source.toList = front ++ input) :
    wordEnd? wide source (byteLength front) (utf8 input) =
      some (byteLength front + byteLength (run (isIdentifierPart wide) input).1) := by
  induction input generalizing front with
  | nil => simp [wordEnd?, run]
  | cons c input ih =>
    have hnext : wordEnd? wide source (byteLength front + c.utf8Size) (utf8 input) =
        some (byteLength front + c.utf8Size +
          byteLength (input.takeWhile (isIdentifierPart wide))) := by
      have happ : source.toList = (front ++ [c]) ++ input := by simpa using h
      simpa [run] using ih happ
    have hdrop := drop_utf8 c input
    rw [run, List.takeWhile_cons]
    cases hc : isWide c with
    | false =>
      have hsize : c.utf8Size = 1 := by
        simpa [utf8_narrow hc] using (length_utf8 [c]).symm
      rw [hsize] at hnext
      rw [utf8_cons_narrow hc, wordEnd?, hc, isIdentifierPart, hc]
      simp only [Bool.false_eq_true, if_false]
      split
      · rw [hnext, byteLength_cons, hsize, Nat.add_assoc]
      · rfl
    | true =>
      obtain ⟨b, bs, hu, hb, -⟩ := exists_utf8_cons hc
      rw [hu] at hdrop ⊢
      rw [wordEnd?, hb, charAt?_of_toList h, isIdentifierPart, hc]
      simp only [if_true, Option.bind_eq_bind, Option.bind_some]
      split
      · rw [hdrop, hnext, byteLength_cons, Nat.add_assoc]
      · rfl

/-- Where a word starts, the first of its bytes shows it. -/
theorem startsWord_of_utf8 {bs : List Char} (h : utf8 (c :: input) = b :: bs) :
    startsWord b = startsWord c := by
  cases hc : isWide c with
  | false =>
    rw [utf8_cons_narrow hc] at h
    rw [(List.cons.inj h).1]
  | true =>
    obtain ⟨b', bs', hu, hb, -⟩ := exists_utf8_cons hc
    rw [hu] at h
    obtain ⟨rfl, -⟩ := List.cons.inj h
    rw [startsWord, startsWord, hb, hc, Bool.or_true, Bool.or_true]

private theorem scan_of_startsWord (h : startsWord c = true) (input : List Char) :
    scan wide c input = scanWord wide c input := by
  obtain ⟨hblank, hslash, -⟩ := startsWord_facts h
  rw [scan, hblank, scanComment?_of_ne hslash]
  exact if_pos h

/-- A character is refused where it stands first. -/
theorem scan_eq_character {d : Char} {text : List Char}
    (h : scan wide c input = .fault (.character d) text) : d = c ∧ text = [c] := by
  rcases scan_cases wide c input with ⟨-, hs⟩ | hs | hs | ⟨_, _, hs⟩ | ⟨literal, hs⟩ | hs <;>
    rw [h] at hs
  · cases hs
  · unfold scanComment? at hs
    split at hs
    · cases hs
    · split at hs <;> cases hs
    · cases hs
  · unfold scanWord at hs
    split at hs
    · cases hs
      exact ⟨rfl, rfl⟩
    · cases hs
  · cases hs
  · unfold scanQuoted at hs
    split at hs <;> cases hs
  · unfold scanPunctuator at hs
    split at hs
    · cases hs
    · cases hs
      exact ⟨rfl, rfl⟩

/-- The class of a lexeme with the number of its bytes after the first, or the refusal. -/
def Scan.atOffset (start : Nat) : Scan → Except ParseError (Option TokenKind × Nat)
  | .lexeme kind text _ => .ok (kind, byteLength text - 1)
  | .fault cause text => .error (cause.error ⟨start, start + byteLength text⟩)

/-- A token is found by its bytes where it is found by its characters. -/
private theorem scanAt?_utf8 {bs : List Char} (h : source.toList = front ++ c :: input)
    (hb : utf8 (c :: input) = b :: bs) :
    scanAt? wide source (byteLength front) b bs =
      some ((scan wide c input).atOffset (byteLength front)) := by
  rw [scanAt?, startsWord_of_utf8 hb]
  cases hw : startsWord c with
  | true =>
    obtain ⟨taken, rest, hr⟩ :
        ∃ taken rest, run (isIdentifierPart wide) (c :: input) = (taken, rest) := ⟨_, _, rfl⟩
    have happ := run_append (isIdentifierPart wide) (c :: input)
    rw [← hb, wordEnd?_utf8 h, scan_of_startsWord hw, scanWord]
    rw [hr] at happ ⊢
    cases taken with
    | nil => simp [refuseAt?, charAt?_of_toList h, Scan.atOffset, Fault.error]
    | cons d taken =>
      have hpos := d.utf8Size_pos
      rw [← happ] at h
      have hslice := Span.slice?_of_toList front (d :: taken) rest h
      have hstop : ¬ byteLength front + byteLength (d :: taken) = byteLength front := by
        rw [byteLength_cons]
        omega
      simp only [if_true, Option.bind_eq_bind, Option.bind_some, if_neg hstop, hslice,
        Scan.atOffset, Nat.add_sub_cancel_left]
      rfl
  | false =>
    obtain ⟨-, hnarrow⟩ := Bool.or_eq_false_iff.1 hw
    rw [utf8_cons_narrow hnarrow] at hb
    obtain ⟨rfl, rfl⟩ := List.cons.inj hb
    rw [scan_utf8 hw]
    cases hs : scan wide c input with
    | lexeme kind text rest => simp [Scan.utf8, Scan.atOffset, length_utf8]
    | fault cause text =>
      cases cause with
      | character d =>
        obtain ⟨rfl, rfl⟩ := scan_eq_character hs
        simp [Scan.utf8, refuseAt?, charAt?_of_toList h, Scan.atOffset, Fault.error]
      | comment | literal => simp [Scan.utf8, Scan.atOffset, length_utf8]

/-- The bytes after those of a lexeme. -/
theorem drop_of_splits {bs text : List Char} (hb : utf8 (c :: input) = b :: bs) (hne : text ≠ [])
    (happ : text ++ rest = c :: input) :
    ∃ more, byteLength text = more + 1 ∧ bs.drop more = utf8 rest := by
  have hpos : 0 < byteLength text := by
    obtain ⟨d, text, rfl⟩ := List.exists_cons_of_ne_nil hne
    have := d.utf8Size_pos
    rw [byteLength_cons]
    omega
  have hdrop : (b :: bs).drop (byteLength text) = utf8 rest := by
    rw [← hb, ← happ, utf8_append, ← length_utf8, List.drop_left]
  obtain ⟨more, hmore⟩ : ∃ more, byteLength text = more + 1 := ⟨byteLength text - 1, by omega⟩
  rw [hmore, List.drop_succ_cons] at hdrop
  exact ⟨more, hmore, hdrop⟩

/-- One step of the lexer on bytes: where a lexeme is taken, the offset reached is again that of a
character. -/
theorem tokensAt?_of_scan {start : Nat} {kind : Option TokenKind} {text : List Char}
    {tokens : Except ParseError (List Token)} (h : source.toList = front ++ c :: input)
    (hstart : start = byteLength front) (hs : scan wide c input = .lexeme kind text rest)
    (hnext : ∀ front, source.toList = front ++ rest → start + byteLength text = byteLength front →
      tokensAt? wide source (start + byteLength text) (utf8 rest) = some tokens) :
    tokensAt? wide source start (utf8 (c :: input)) = some (kind.elim tokens fun kind =>
      tokens.map (⟨kind, String.ofList text, ⟨start, start + byteLength text⟩⟩ :: ·)) := by
  subst hstart
  obtain ⟨b, bs, hb⟩ := exists_utf8_eq_cons c input
  have hsplits := scan_splits wide c input
  rw [hs] at hsplits
  obtain ⟨hne, happ⟩ := hsplits
  rw [← happ] at h
  have hslice := Span.slice?_of_toList front text rest h
  have htokens := hnext (front ++ text) (by rw [h, List.append_assoc]) (byteLength_append _ _).symm
  obtain ⟨more, hmore, hdrop⟩ := drop_of_splits hb hne happ
  rw [happ] at h
  rw [hmore] at hslice htokens ⊢
  rw [hb, tokensAt?, scanAt?_utf8 h hb, hs, Scan.atOffset, hmore]
  simp only [Option.bind_eq_bind, Option.bind_some, Nat.add_sub_cancel, hdrop, htokens, hslice]
  cases kind <;> rfl

private theorem tokensAt?_utf8 {start : Nat} (h : source.toList = front ++ input)
    (hstart : start = byteLength front) :
    tokensAt? wide source start (utf8 input) = some (tokensFrom wide start input) := by
  fun_induction tokensFrom wide start input generalizing front with
  | case1 start => rw [utf8_nil, tokensAt?]
  | case2 start c input cause text hs =>
    subst hstart
    obtain ⟨b, bs, hb⟩ := exists_utf8_eq_cons c input
    rw [hb, tokensAt?, scanAt?_utf8 h hb, hs]
    rfl
  | case3 start c input text rest stop hs =>
    rename_i ih
    exact tokensAt?_of_scan h hstart hs fun front => ih
  | case4 start c input text rest stop kind hs =>
    rename_i ih
    rw [tokensAt?_of_scan h hstart hs fun front => ih]
    cases tokensFrom wide stop rest <;> rfl

end

end Lexer

/-- Cut a source into tokens byte by byte. There is no answer if a slice is taken off the boundaries
of characters. -/
def tokenizeBytes? (wide : Char → Bool) (source : String) : Option
    (Except ParseError (List Token)) :=
  if maxSourceBytes < source.utf8ByteSize then some (.error (.sourceTooLarge source.utf8ByteSize))
  else Lexer.tokensAt? wide source 0 (Lexer.bytesOf source)

/-- The lexer can go byte by byte: no slice is off the boundaries of characters, whether or not the
source is refused. -/
theorem tokenizeBytes?_eq (wide : Char → Bool) (source : String) :
    tokenizeBytes? wide source = some (tokenizeWith wide source) := by
  rw [tokenizeBytes?, tokenizeWith]
  split
  · rfl
  · have hfront : source.toList = [] ++ source.toList := rfl
    rw [Lexer.bytesOf_eq]
    exact Lexer.tokensAt?_utf8 hfront rfl

/-- Going byte by byte, the lexer takes every slice at boundaries of characters, and the tokens of a
source that is not refused tile it. -/
theorem tokenizeWith_tiles (wide : Char → Bool) (source : String) :
    tokenizeBytes? wide source = some (tokenizeWith wide source) ∧
      ∀ tokens, tokenizeWith wide source = .ok tokens → Tiles source tokens := by
  refine ⟨tokenizeBytes?_eq wide source, fun tokens h => ?_⟩
  exact tiles_of_tokensFrom (Lexer.tokensFrom_of_tokenizeWith h)

/-- Comments, a word and an escape with a character of two bytes. -/
theorem tokenizeWith_tiles_escape :
    ∃ tokens, tokenize "/*é*/ä\"\\é\"//ü" = .ok tokens ∧
      tokens.map Token.span = [⟨6, 8⟩, ⟨8, 13⟩, ⟨17, 17⟩] ∧
      Tiles "/*é*/ä\"\\é\"//ü" tokens := by
  have hcut : (match tokenize "/*é*/ä\"\\é\"//ü" with
      | .ok tokens => tokens.map Token.span == [⟨6, 8⟩, ⟨8, 13⟩, ⟨17, 17⟩]
      | .error _ => false) = true := by
    decide +kernel
  split at hcut
  next tokens htokens =>
    exact ⟨tokens, htokens, eq_of_beq hcut, (tokenizeWith_tiles _ _).2 tokens htokens⟩
  next => cases hcut

end JavaFold
