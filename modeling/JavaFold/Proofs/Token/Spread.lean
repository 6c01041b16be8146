import JavaFold.Proofs.Token.Cut
import JavaFold.Proofs.Token.Tiling

/-!
# Tokens do not depend on the layout

Where a token ends is decided by the character that follows it, and a blank ends every token. So the
texts of the tokens of a source can be written apart, with blanks of any kind and number between
them, and are cut into the same tokens again: nothing is left of the comments and of the spacing of
the source. Main statement: `tokenizeWith_spread`.
-/

namespace JavaFold

/-- The texts of tokens, without the one that closes the source. -/
def Token.texts (tokens : List Token) : List String :=
  (tokens.filter (·.kind != .endOfFile)).map Token.text

/-- Texts one after the other, with a gap after each but the last. -/
def spread (texts gaps : List String) : String :=
  String.join (List.zipWith (· ++ ·) texts (gaps ++ [""]))

namespace Lexer

/-- Blanks, at least one. -/
def IsGap (gap : String) : Prop :=
  gap ≠ "" ∧ ∀ c ∈ gap.toList, isBlank c = true

variable {wide : Char → Bool} {input blanks : List Char} {ws : List Word} {gaps : List String}
  {tokens : List Token}

/-! ## Words with gaps between them -/

private theorem Cuts.append_blanks (h : ∀ c ∈ blanks, isBlank c = true) (hc : Cuts wide input ws) :
    Cuts wide (blanks ++ input) ws := by
  induction blanks with
  | nil => exact hc
  | cons c blanks ih =>
    obtain ⟨hb, hblanks⟩ := List.forall_mem_cons.1 h
    exact .blank hb (ih hblanks)

private theorem toList_spread_cons (text next gap : String) (texts gaps : List String) :
    (spread (text :: next :: texts) (gap :: gaps)).toList =
      text.toList ++ (gap.toList ++ (spread (next :: texts) gaps).toList) := by
  simp [spread, String.join_cons]

/-- Words that are written apart are cut apart. -/
theorem cuts_spread (hws : ∀ w ∈ ws, Lexeme wide w) (hgaps : ∀ gap ∈ gaps, IsGap gap)
    (hcount : gaps.length = ws.length - 1) :
    Cuts wide (spread (ws.map Word.text) gaps).toList ws := by
  induction ws generalizing gaps with
  | nil =>
    have hempty : (spread ([].map Word.text) gaps).toList = [] := by simp [spread]
    rw [hempty]
    exact .nil
  | cons w ws ih =>
    obtain ⟨hw, hws⟩ := List.forall_mem_cons.1 hws
    cases ws with
    | nil =>
      obtain rfl : gaps = [] := List.length_eq_zero_iff.1 hcount
      have hlast : (spread ([w].map Word.text) []).toList = w.text.toList ++ [] := by
        simp [spread]
      rw [hlast]
      exact .word hw nofun .nil
    | cons v ws =>
      obtain ⟨gap, gaps, rfl⟩ : ∃ gap rest, gaps = gap :: rest := by
        cases gaps with
        | nil => cases hcount
        | cons gap gaps => exact ⟨gap, gaps, rfl⟩
      obtain ⟨⟨hne, hblank⟩, hgaps⟩ := List.forall_mem_cons.1 hgaps
      rw [List.map_cons, List.map_cons, toList_spread_cons]
      refine .word hw ?_ (.append_blanks hblank (ih hws hgaps (Nat.succ.inj hcount)))
      -- the gap is not empty, so what follows the word is a blank
      obtain ⟨c, cs, hcs⟩ := List.exists_cons_of_ne_nil (mt String.toList_eq_nil_iff.1 hne)
      rw [hcs]
      rintro _ ⟨⟩
      exact endsBefore_of_isBlank w (hblank c (hcs ▸ List.mem_cons_self))

/-! ## Tokens up to their places -/

private theorem texts_of_bare (h : tokens.map Token.bare = tokensOf ws) :
    Token.texts tokens = ws.map Word.text := by
  have hbare : Token.texts tokens = Token.texts (tokens.map Token.bare) := by
    rw [Token.texts, Token.texts, List.filter_map, List.map_map]
    rfl
  have hwords : (ws.map Word.token).filter (·.kind != .endOfFile) = ws.map Word.token := by
    rw [List.filter_eq_self]
    intro token htoken
    obtain ⟨w, -, rfl⟩ := List.mem_map.1 htoken
    simpa using w.kind_ne_endOfFile
  rw [hbare, h, Token.texts, tokensOf, List.filter_append, hwords, List.map_append, List.map_map]
  simp [Token.endOfFile]

private theorem kinds_of_bare {tokens' : List Token}
    (h : tokens'.map Token.bare = tokens.map Token.bare) :
    tokens'.map Token.kind = tokens.map Token.kind ∧
      tokens'.map Token.text = tokens.map Token.text := by
  have hkinds := congrArg (List.map Token.kind) h
  have htexts := congrArg (List.map Token.text) h
  rw [List.map_map, List.map_map] at hkinds htexts
  exact ⟨hkinds, htexts⟩

/-- Words that are cut out of some text are told by how they are written. -/
theorem words_eq_of_texts {ws' : List Word} (hws : ∀ w ∈ ws, Lexeme wide w)
    (hws' : ∀ w ∈ ws', Lexeme wide w) (htexts : ws'.map Word.text = ws.map Word.text) :
    tokensOf ws' = tokensOf ws := by
  have hcount : (List.replicate (ws.length - 1) " ").length = ws.length - 1 := List.length_replicate
  have hgaps : ∀ gap ∈ List.replicate (ws.length - 1) " ", IsGap gap := by
    intro gap hgap
    rw [List.eq_of_mem_replicate hgap]
    simp [IsGap, isBlank]
  have hlength : ws'.length = ws.length := by simpa using congrArg List.length htexts
  have hcuts := cuts_spread hws hgaps hcount
  have hcuts' := cuts_spread hws' hgaps (by rw [hlength]; exact hcount)
  rw [htexts] at hcuts'
  obtain ⟨tokens, ht, hb⟩ := hcuts.tokensFrom 0
  obtain ⟨tokens', ht', hb'⟩ := hcuts'.tokensFrom 0
  cases ht.symm.trans ht'
  exact hb'.symm.trans hb

end Lexer

open Lexer

/-- The texts of the tokens of a source, written apart with gaps of any blanks, have tokens of the
same classes and texts in the same order; and so has every other source whose tokens have these
texts. -/
theorem tokenizeWith_spread (wide : Char → Bool) (source : String) (tokens : List Token)
    (h : tokenizeWith wide source = .ok tokens) :
    (∀ gaps : List String, gaps.length = (Token.texts tokens).length - 1 →
      (∀ gap ∈ gaps, IsGap gap) →
      (spread (Token.texts tokens) gaps).utf8ByteSize ≤ maxSourceBytes →
      ∃ tokens', tokenizeWith wide (spread (Token.texts tokens) gaps) = .ok tokens' ∧
        tokens'.map Token.kind = tokens.map Token.kind ∧
        tokens'.map Token.text = tokens.map Token.text ∧
        ∀ token ∈ tokens', token.span.slice? (spread (Token.texts tokens) gaps) = some token.text) ∧
    ∀ source' tokens', tokenizeWith wide source' = .ok tokens' →
      Token.texts tokens' = Token.texts tokens →
      tokens'.map Token.kind = tokens.map Token.kind := by
  obtain ⟨ws, hbare, hws⟩ := words_of_tokenizeWith h
  have htexts := texts_of_bare hbare
  constructor
  · intro gaps hcount hgaps hsize
    rw [htexts] at hcount hsize ⊢
    rw [List.length_map] at hcount
    obtain ⟨tokens', ht, hbare'⟩ := (cuts_spread hws hgaps hcount).tokensFrom 0
    obtain ⟨hkinds, hsame⟩ := kinds_of_bare (hbare'.trans hbare.symm)
    refine ⟨tokens', ?_, hkinds, hsame, (tiles_of_tokensFrom ht).sliced⟩
    rw [tokenizeWith, if_neg (Nat.not_lt.2 hsize), ht]
  · intro source' tokens' h' hsame
    obtain ⟨ws', hbare', hws'⟩ := words_of_tokenizeWith h'
    rw [texts_of_bare hbare', htexts] at hsame
    have hwords := words_eq_of_texts hws hws' hsame
    exact (kinds_of_bare (hbare'.trans (hwords.trans hbare.symm))).1

/-- A comment and a point that was cut off a number give way to blanks. -/
theorem tokenizeWith_spread_point :
    ∃ tokens tokens', tokenize "1.x//c\n+.5" = .ok tokens ∧
      Token.texts tokens = ["1", ".", "x", "+", ".5"] ∧
      (∀ gap ∈ [" ", "\t", "\r\n", "\x0c"], IsGap gap) ∧
      tokenize "1 .\tx\r\n+\x0c.5" = .ok tokens' ∧
      tokens'.map Token.kind = tokens.map Token.kind ∧
      tokens'.map Token.text = tokens.map Token.text := by
  have hcut : (match tokenize "1.x//c\n+.5" with
      | .ok tokens => Token.texts tokens == ["1", ".", "x", "+", ".5"]
      | .error _ => false) = true := by
    decide +kernel
  have hgaps : ∀ gap ∈ [" ", "\t", "\r\n", "\x0c"], IsGap gap := by
    simp [IsGap, isBlank]
  split at hcut
  next tokens htokens =>
    have htexts := eq_of_beq hcut
    obtain ⟨tokens', ht, hkinds, hsame, -⟩ :=
      (tokenizeWith_spread _ _ tokens htokens).1 [" ", "\t", "\r\n", "\x0c"]
        (by rw [htexts]; rfl) hgaps (by rw [htexts]; decide +kernel)
    rw [htexts] at ht
    exact ⟨tokens, tokens', htokens, htexts, hgaps, ht, hkinds, hsame⟩
  next => cases hcut

end JavaFold
