import JavaFold.Proofs.Grammar.Places
import JavaFold.Proofs.Token.Lexeme

/-!
# Texts that are cut into given words

A text is cut into words if it consists of the words and of blanks, and no word is gone on with by
what follows it (`Cuts`). Such a text has the tokens of its words (`Cuts.tokensFrom`), and the
tokens of any text are those of some words (`words_of_tokensFrom`). Which words may stand next to
each other without a blank is told by their classes alone (`Word.abuts`).
-/

namespace JavaFold

namespace Lexer

variable {wide : Char → Bool} {input tail : List Char} {ws : List Word} {tokens : List Token}

/-- A text consists of words, none of which is gone on with, and of blanks. -/
inductive Cuts (wide : Char → Bool) : List Char → List Word → Prop where
  | nil : Cuts wide [] []
  | blank {c : Char} {input : List Char} {ws : List Word} (hc : isBlank c = true)
    (h : Cuts wide input ws) : Cuts wide (c :: input) ws
  | word {w : Word} {tail : List Char} {ws : List Word} (hw : Lexeme wide w)
    (ht : ∀ c ∈ tail.head?, EndsBefore wide w c) (h : Cuts wide tail ws) :
    Cuts wide (w.text.toList ++ tail) (w :: ws)

/-- The tokens of an input are the first lexeme scanned, unless it is one that is skipped, and those
of what is left behind it. -/
theorem tokensFrom_cons {c : Char} {kind : Option TokenKind} {text rest : List Char}
    (h : scan wide c input = .lexeme kind text rest) (start : Nat) :
    tokensFrom wide start (c :: input) =
      match kind with
      | none => tokensFrom wide (start + byteLength text) rest
      | some kind => do
        let tokens ← tokensFrom wide (start + byteLength text) rest
        return ⟨kind, String.ofList text, ⟨start, start + byteLength text⟩⟩ :: tokens := by
  rw [tokensFrom]
  split
  next hs => rw [h] at hs; cases hs
  next hs =>
    rw [h] at hs
    cases hs
    cases kind <;> rfl

/-- A text has the tokens of the words it is cut into. -/
theorem Cuts.tokensFrom (h : Cuts wide input ws) (start : Nat) :
    ∃ tokens, tokensFrom wide start input = .ok tokens ∧ tokens.map Token.bare = tokensOf ws := by
  induction h generalizing start with
  | nil => exact ⟨_, by rw [Lexer.tokensFrom], rfl⟩
  | @blank c input ws hc h ih =>
    have hscan : scan wide c input = .lexeme none [c] input := by rw [scan, if_pos hc]
    obtain ⟨tokens, ht, hb⟩ := ih (start + byteLength [c])
    exact ⟨tokens, by rw [tokensFrom_cons hscan, ht], hb⟩
  | @word w tail ws hw ht h ih =>
    obtain ⟨c, cs, hcs, hscan⟩ := scan_of_lexeme hw ht
    obtain ⟨tokens, hr, hb⟩ := ih (start + byteLength w.text.toList)
    refine ⟨_, by rw [hcs, List.cons_append, tokensFrom_cons hscan, hr]; rfl, ?_⟩
    rw [List.map_cons, hb, tokensOf_cons, String.ofList_toList]
    rfl

/-- The tokens of a text are those of words that can be cut out again. -/
theorem words_of_tokensFrom {start : Nat} (h : tokensFrom wide start input = .ok tokens) :
    ∃ ws, tokens.map Token.bare = tokensOf ws ∧ ∀ w ∈ ws, Lexeme wide w := by
  fun_induction tokensFrom wide start input generalizing tokens with
  | case1 start =>
    cases h
    exact ⟨[], rfl, nofun⟩
  | case2 => cases h
  | case3 =>
    rename_i ih
    exact ih h
  | case4 start c input text rest stop kind hs =>
    rename_i ih
    cases hr : tokensFrom wide stop rest with
    | error error =>
      rw [hr] at h
      cases h
    | ok tokens =>
      rw [hr] at h
      cases h
      obtain ⟨w, hw, rfl, rfl⟩ := lexeme_of_scan hs
      obtain ⟨ws, hb, hws⟩ := ih hr
      refine ⟨w :: ws, ?_, List.forall_mem_cons.mpr ⟨hw, hws⟩⟩
      rw [List.map_cons, hb, tokensOf_cons, String.ofList_toList]
      rfl

/-- A source that is cut into tokens is cut from its start. -/
theorem tokensFrom_of_tokenizeWith {source : String} (h : tokenizeWith wide source = .ok tokens) :
    tokensFrom wide 0 source.toList = .ok tokens := by
  rw [tokenizeWith] at h
  split at h
  · cases h
  · exact h

/-- The tokens of a source are words, each of which has the form of a lexeme. -/
theorem words_of_tokenizeWith {source : String} (h : tokenizeWith wide source = .ok tokens) :
    ∃ ws, tokens.map Token.bare = tokensOf ws ∧ ∀ w ∈ ws, Lexeme wide w :=
  words_of_tokensFrom (tokensFrom_of_tokenizeWith h)

end Lexer

/-! ## Words next to each other -/

/-- Whether a punctuator is one of those that nothing goes on with. -/
def Punctuator.isSolid : Punctuator → Bool
  | lparen | rparen | lbrace | rbrace | lbracket | rbracket | semicolon | comma | tilde | plusPlus
  | minusMinus => true
  | _ => false

private theorem Punctuator.followers_eq_nil {p : Punctuator} (h : p.isSolid = true) :
    Lexer.followers p = [] := by
  cases p <;> first | decide | cases h

namespace Word

/-- Whether two words may stand next to each other without a blank. -/
def abuts : Word → Word → Bool
  | identifier _, punctuator _ | keyword _, punctuator _ => true
  | number _, punctuator q => q != .dot && q != .ellipsis
  | character _, _ | string _, _ => true
  | punctuator p, number _ => p != .dot
  | punctuator p, punctuator q =>
    p != .slash && !(q.text.toList.head?.any (Lexer.followers p).contains)
  | punctuator _, _ => true
  | _, _ => false

/-- Whether a punctuator may stand next to a word unless it starts with a point. -/
def closes : Word → Bool
  | punctuator p => p.isSolid
  | _ => true

/-- A solid punctuator may stand at once before every word. -/
theorem abuts_of_isSolid {p : Punctuator} (h : p.isSolid = true) (w : Word) :
    (punctuator p).abuts w = true := by
  cases w with
  | number text => cases p <;> first | rfl | cases h
  | punctuator q =>
    have hs : (p != .slash) = true := by cases p <;> first | rfl | cases h
    rw [abuts, hs, Punctuator.followers_eq_nil h]
    cases q.text.toList.head? <;> rfl
  | _ => rfl

/-- A word that closes may stand at once before every punctuator but those with points. -/
theorem abuts_of_closes {w : Word} {q : Punctuator} (h : w.closes = true)
    (hq : (q != .dot && q != .ellipsis) = true) : w.abuts (punctuator q) = true := by
  cases w with
  | punctuator p => exact abuts_of_isSolid h _
  | number text => exact hq
  | _ => rfl

end Word

namespace Lexer

/-- No punctuator goes on with a blank, a letter, a digit or a quote, and only points with a
point. -/
theorem followers_facts (p : Punctuator) :
    ∀ c ∈ followers p, isBlank c = false ∧ startsWord c = false ∧ c.isDigit = false ∧ c ≠ '\'' ∧
      c ≠ '"' ∧ (c = '.' → p = .dot) := by
  have hall : ((followers p).all fun c => !isBlank c && !startsWord c && !c.isDigit && c != '\'' &&
      c != '"' && (c != '.' || p == .dot)) = true := by
    cases p <;> decide
  intro c hc
  have hfacts := List.all_eq_true.1 hall c hc
  grind

/-- A blank ends every word. -/
theorem endsBefore_of_isBlank {wide : Char → Bool} {c : Char} (w : Word) (hc : isBlank c = true) :
    EndsBefore wide w c := by
  have hcases := hc
  simp only [isBlank, Bool.or_eq_true, decide_eq_true_eq] at hcases
  cases w with
  | identifier | keyword | number => rcases hcases with (((rfl | rfl) | rfl) | rfl) | rfl <;> rfl
  | character | string => trivial
  | punctuator p =>
    refine ⟨fun hf => ?_, fun _ => ?_, fun _ => ?_⟩
    · simp [(followers_facts p c hf).1] at hc
    · rcases hcases with (((rfl | rfl) | rfl) | rfl) | rfl <;> rfl
    · rcases hcases with (((rfl | rfl) | rfl) | rfl) | rfl <;> decide

private theorem not_isIdentifierPart_punctuator {wide : Char → Bool} (q : Punctuator) :
    ∀ c ∈ q.text.toList.head?, isIdentifierPart wide c = false := by
  cases q <;> rintro c ⟨⟩ <;> rfl

private theorem not_isDigit_punctuator (q : Punctuator) :
    ∀ c ∈ q.text.toList.head?, c.isDigit = false := by
  cases q <;> rintro c ⟨⟩ <;> rfl

private theorem not_continuesNumber_punctuator {q : Punctuator}
    (h : (q != .dot && q != .ellipsis) = true) :
    ∀ c ∈ q.text.toList.head?, continuesNumber c = false := by
  cases q <;> first | (rintro c ⟨⟩; rfl) | cases h

/-- The first character of a word. -/
theorem Lexeme.head? {wide : Char → Bool} {w : Word} (h : Lexeme wide w) :
    ∃ c cs, w.text.toList = c :: cs := by
  have hend : ∀ c ∈ ([] : List Char).head?, EndsBefore wide w c := nofun
  obtain ⟨c, cs, hcs, -⟩ := scan_of_lexeme h hend
  exact ⟨c, cs, hcs⟩

section Punctuators

variable {wide : Char → Bool} {p : Punctuator} {c : Char}

private theorem endsBefore_punctuator {q : Punctuator}
    (h : (Word.punctuator p).abuts (.punctuator q) = true) :
    ∀ c ∈ q.text.toList.head?, EndsBefore wide (.punctuator p) c := by
  intro c hc
  rw [Word.abuts, Option.mem_def.mp hc] at h
  simp only [Option.any_some, Bool.and_eq_true, bne_iff_ne, ne_eq, Bool.not_eq_true',
    List.contains_eq_mem, decide_eq_false_iff_not] at h
  exact ⟨h.2, fun _ => not_isDigit_punctuator q c hc, fun hp => absurd hp h.1⟩

/-- Every punctuator ends before what starts a word. -/
theorem endsBefore_startsWord (p : Punctuator) (hc : startsWord c = true) :
    EndsBefore wide (.punctuator p) c := by
  obtain ⟨-, hslash, hdigit, -⟩ := startsWord_facts hc
  refine ⟨fun hf => ?_, fun _ => hdigit, fun _ => ⟨hslash, ?_⟩⟩
  · simp [(followers_facts p c hf).2.1] at hc
  · rintro rfl
    cases hc

private theorem endsBefore_startsNumber {cs : List Char} (hp : p ≠ .dot)
    (hs : startsNumber (c :: cs) = true) : EndsBefore wide (.punctuator p) c := by
  have hc : c.isDigit = true ∨ c = '.' := by
    simp only [startsNumber, Bool.or_eq_true, Bool.and_eq_true, decide_eq_true_eq] at hs
    exact hs.imp id And.left
  refine ⟨fun hf => ?_, fun hd => absurd hd hp, fun _ => ?_⟩
  · obtain ⟨-, -, hdigit, -, -, hdot⟩ := followers_facts p c hf
    rcases hc with hc | hc
    · simp [hdigit] at hc
    · exact hp (hdot hc)
  · rcases hc with hc | rfl
    · constructor <;> rintro rfl <;> cases hc
    · decide

private theorem endsBefore_quote (p : Punctuator) (hc : c = '\'' ∨ c = '"') :
    EndsBefore wide (.punctuator p) c := by
  refine ⟨fun hf => ?_, fun _ => ?_, fun _ => ?_⟩
  · obtain ⟨-, -, -, h1, h2, -⟩ := followers_facts p c hf
    exact hc.elim h1 h2
  · rcases hc with rfl | rfl <;> rfl
  · rcases hc with rfl | rfl <;> decide

end Punctuators

/-- Words that may stand next to each other do not run together. -/
theorem endsBefore_of_abuts {wide : Char → Bool} {w v : Word} {tail : List Char}
    (hv : Lexeme wide v) (h : w.abuts v = true) :
    ∀ c ∈ (v.text.toList ++ tail).head?, EndsBefore wide w c := by
  obtain ⟨c, cs, hcs⟩ := hv.head?
  rw [hcs]
  rintro _ ⟨⟩
  have hc : c ∈ v.text.toList.head? := by rw [hcs]; rfl
  cases w with
  | identifier text | keyword k =>
    cases v with
    | punctuator q => exact not_isIdentifierPart_punctuator q c hc
    | _ => cases h
  | number text =>
    cases v with
    | punctuator q => exact not_continuesNumber_punctuator h c hc
    | _ => cases h
  | character | string => trivial
  | punctuator p =>
    cases v with
    | punctuator q => exact endsBefore_punctuator h c hc
    | identifier text =>
      obtain ⟨_, _, hcs', hstart⟩ := hv.1.start
      cases hcs.symm.trans hcs'
      exact endsBefore_startsWord p hstart
    | keyword k =>
      obtain ⟨_, _, hcs', hstart⟩ := (show IsIdentifier wide k.text.toList from
          isIdentifier_keyword k).start
      cases hcs.symm.trans hcs'
      exact endsBefore_startsWord p hstart
    | number text =>
      have hs := hv.1
      rw [show text.toList = c :: cs from hcs] at hs
      exact endsBefore_startsNumber (by simpa [Word.abuts] using h) hs
    | character text =>
      obtain ⟨_, hcs', -⟩ := hv
      cases hcs.symm.trans hcs'
      exact endsBefore_quote p (.inl rfl)
    | string text =>
      obtain ⟨_, hcs', -⟩ := hv
      cases hcs.symm.trans hcs'
      exact endsBefore_quote p (.inr rfl)

end Lexer

end JavaFold
