import JavaFold.Proofs.Token.Cut

/-!
# Tokens tile their source

The tokens of a source stand in order, start and end at boundaries of characters, and have as their
texts what stands there (`Tiles`). What they leave out is trivia: blanks, comments up to the end of
the line, and comments that are closed (`Lexer.Trivia`). The loop of the lexer is followed on
characters (`Lexer.Tiled`), the texts before a place counting for its offset.
-/

namespace JavaFold

/-! ## Slices -/

/-- The text in a range of a source, unless the range ends before it starts or one of its ends is
not at the boundary of a character. -/
def Span.slice? (span : Span) (source : String) : Option String :=
  if h : span.start ≤ span.stop ∧ String.Pos.Raw.IsValid source ⟨span.start⟩ ∧
      String.Pos.Raw.IsValid source ⟨span.stop⟩ then
    some (String.extract ⟨⟨span.start⟩, h.2.1⟩ ⟨⟨span.stop⟩, h.2.2⟩)
  else none

/-- A span with a text starts and ends between characters. -/
theorem Span.isValid_of_slice? {span : Span} {source text : String}
    (h : span.slice? source = some text) :
    String.Pos.Raw.IsValid source ⟨span.start⟩ ∧ String.Pos.Raw.IsValid source ⟨span.stop⟩ := by
  unfold slice? at h
  split at h
  next hvalid => exact hvalid.2
  next => cases h

private theorem Span.slice?_append (front text back : String) :
    (Span.mk front.utf8ByteSize (front.utf8ByteSize + text.utf8ByteSize)).slice?
      (front ++ (text ++ back)) = some text := by
  have hstart : String.Pos.Raw.IsValid (front ++ (text ++ back)) ⟨front.utf8ByteSize⟩ :=
    String.Pos.Raw.isValid_iff_exists_append.2 ⟨front, text ++ back, rfl, rfl⟩
  have hstop : String.Pos.Raw.IsValid (front ++ (text ++ back))
      ⟨front.utf8ByteSize + text.utf8ByteSize⟩ := by
    refine String.Pos.Raw.isValid_iff_exists_append.2 ⟨front ++ text, back, ?_, ?_⟩
    · rw [String.append_assoc]
    · rw [String.rawEndPos, String.utf8ByteSize_append]
  rw [slice?, dif_pos ⟨Nat.le_add_right _ _, hstart, hstop⟩]
  -- The bytes of a slice are those of the source between its ends.
  refine congrArg some (String.toByteArray_inj.1 ?_)
  rw [String.toByteArray_extract, String.toByteArray_append, String.toByteArray_append]
  change ByteArray.extract _ (front.toByteArray.size + 0)
    (front.toByteArray.size + text.toByteArray.size) = _
  rw [ByteArray.extract_append_size_add, ByteArray.extract_append_size_left,
    ByteArray.extract_zero_size]

/-- The size of a text is the length of its characters in bytes. -/
theorem utf8ByteSize_ofList (cs : List Char) : (String.ofList cs).utf8ByteSize = byteLength cs := by
  induction cs with
  | nil => rfl
  | cons c cs ih =>
    rw [String.ofList_cons, String.utf8ByteSize_append, ih, String.utf8ByteSize_singleton,
      byteLength_cons]

/-- The size of a source is the length of its characters in bytes. -/
theorem utf8ByteSize_eq (source : String) : source.utf8ByteSize = byteLength source.toList := by
  rw [← utf8ByteSize_ofList, String.ofList_toList]

/-- The characters of a source between two others are the text of their range. -/
theorem Span.slice?_of_toList {source : String} (front text back : List Char)
    (h : source.toList = front ++ (text ++ back)) :
    (Span.mk (byteLength front) (byteLength front + byteLength text)).slice? source =
      some (String.ofList text) := by
  have hsource : source = String.ofList front ++ (String.ofList text ++ String.ofList back) := by
    rw [← String.ofList_append, ← String.ofList_append, ← h, String.ofList_toList]
  rw [hsource, ← utf8ByteSize_ofList front, ← utf8ByteSize_ofList text]
  exact slice?_append _ _ _

namespace Lexer

variable {wide : Char → Bool} {input rest text gap tail : List Char} {tokens : List Token}

/-! ## Trivia -/

/-- A text of blanks and comments. A comment that two slashes open goes up to a line end, for which
only the end of the source can stand in. -/
inductive Trivia (atEnd : Prop) : List Char → Prop where
  | nil : Trivia atEnd []
  | blank {c : Char} {rest : List Char} (hc : isBlank c = true) (h : Trivia atEnd rest) :
    Trivia atEnd (c :: rest)
  | line {text rest : List Char} (ht : '\n' ∉ text)
    (hend : rest.head? = some '\n' ∨ rest = [] ∧ atEnd) (h : Trivia atEnd rest) :
    Trivia atEnd ('/' :: '/' :: (text ++ rest))
  | block {text rest : List Char} (ht : ¬ ['*', '/'] <:+: text ++ ['*']) (h : Trivia atEnd rest) :
    Trivia atEnd ('/' :: '*' :: (text ++ '*' :: '/' :: rest))

/-- A text without tokens stays one under a weaker condition on its end. -/
theorem Trivia.imp {p q : Prop} (hpq : p → q) (h : Trivia p text) : Trivia q text := by
  induction h with
  | nil => exact .nil
  | blank hc h ih => exact .blank hc ih
  | line ht hend h ih => exact .line ht (hend.imp_right (And.imp_right hpq)) ih
  | block ht h ih => exact .block ht ih

/-- A comment is closed by the first star before a slash. -/
theorem commentTail_eq_some {taken : List Char} (h : commentTail input = some (taken, rest)) :
    ∃ text, taken = text ++ ['*', '/'] ∧ ¬ ['*', '/'] <:+: text ++ ['*'] := by
  fun_induction commentTail input generalizing taken rest with
  | case1 => cases h
  | case2 =>
    cases h
    exact ⟨[], rfl, by decide⟩
  | case3 c input hc ih =>
    obtain ⟨⟨taken', rest'⟩, h', he⟩ := Option.map_eq_some_iff.1 h
    cases he
    obtain ⟨text, rfl, hinfix⟩ := ih h'
    refine ⟨c :: text, rfl, fun hin => ?_⟩
    rw [List.cons_append, List.infix_cons_iff] at hin
    rcases hin with hpre | hin
    · -- A star here would be followed by a slash, and the comment would have ended.
      have happ := commentTail_append h'
      cases text with
      | nil => simp at hpre
      | cons d text =>
        obtain ⟨rfl, hd⟩ := List.cons_prefix_cons.1 hpre
        obtain ⟨rfl, -⟩ := List.cons_prefix_cons.1 hd
        exact hc _ rfl happ.symm
    · exact hinfix hin

/-- The scanners that a lexeme or a fault comes from. -/
theorem scan_cases (wide : Char → Bool) (c : Char) (input : List Char) :
    (isBlank c = true ∧ scan wide c input = .lexeme none [c] input) ∨
      scanComment? (c :: input) = some (scan wide c input) ∨
      scan wide c input = scanWord wide c input ∨
      (∃ text rest, scan wide c input = .lexeme (some .number) text rest) ∨
      (∃ literal, scan wide c input = scanQuoted literal c input) ∨
      scan wide c input = scanPunctuator c input := by
  unfold scan
  split
  next hc => exact .inl ⟨hc, rfl⟩
  split
  next hcomment => exact .inr (.inl hcomment)
  split
  · exact .inr (.inr (.inl rfl))
  split
  · exact .inr (.inr (.inr (.inl ⟨_, _, rfl⟩)))
  split
  · exact .inr (.inr (.inr (.inr (.inl ⟨.character, rfl⟩))))
  split
  · exact .inr (.inr (.inr (.inr (.inl ⟨.string, rfl⟩))))
  · exact .inr (.inr (.inr (.inr (.inr rfl))))

private theorem scanQuoted_ne_none {literal : QuotedLiteral} {quote : Char} :
    scanQuoted literal quote input ≠ .lexeme none text rest := by
  unfold scanQuoted
  split <;> nofun

private theorem scanWord_ne_none {c : Char} : scanWord wide c input ≠ .lexeme none text rest := by
  unfold scanWord
  split <;> nofun

private theorem scanPunctuator_ne_none {c : Char} :
    scanPunctuator c input ≠ .lexeme none text rest := by
  unfold scanPunctuator
  split <;> nofun

/-- A lexeme without a class is a blank or a comment. -/
theorem scan_eq_none {c : Char} (h : scan wide c input = .lexeme none text rest) :
    isBlank c = true ∧ text = [c] ∧ rest = input ∨
      scanComment? (c :: input) = some (.lexeme none text rest) := by
  rcases scan_cases wide c input with ⟨hc, hs⟩ | hs | hs | ⟨_, _, hs⟩ | ⟨literal, hs⟩ | hs
  · rw [hs] at h
    cases h
    exact .inl ⟨hc, rfl, rfl⟩
  · rw [h] at hs
    exact .inr hs
  · exact absurd (hs ▸ h) scanWord_ne_none
  · rw [hs] at h
    cases h
  · exact absurd (hs ▸ h) scanQuoted_ne_none
  · exact absurd (hs ▸ h) scanPunctuator_ne_none

/-- Trivia before trivia, with what follows the whole. -/
theorem trivia_of_scan {atEnd : Prop} {c : Char}
    (h : scan wide c input = .lexeme none text (gap ++ tail)) (hg : Trivia atEnd gap)
    (hend : tail = [] → atEnd) (htail : tail.head? ≠ some '\n') : Trivia atEnd (text ++ gap) := by
  rcases scan_eq_none h with ⟨hc, rfl, -⟩ | h
  · exact .blank hc hg
  unfold scanComment? at h
  split at h
  next inner _ =>
    obtain ⟨taken, left, hr⟩ : ∃ taken left, run (· != '\n') inner = (taken, left) := ⟨_, _, rfl⟩
    rw [hr] at h
    cases h
    have hstops := run_stops hr
    have htaken : taken = inner.takeWhile (· != '\n') := (congrArg Prod.fst hr).symm
    refine .line (fun hmem => ?_) ?_ hg
    · rw [htaken] at hmem
      simpa using List.all_eq_true.mp List.all_takeWhile _ hmem
    · cases gap with
      | cons d gap =>
        have hd := hstops d rfl
        exact .inl (congrArg some (by simpa using hd))
      | nil =>
        cases tail with
        | nil => exact .inr ⟨rfl, hend rfl⟩
        | cons d tail =>
          have hd := hstops d rfl
          exact absurd (congrArg some (by simpa using hd)) htail
  next =>
    split at h
    next taken left hcomment =>
      cases h
      obtain ⟨inner, rfl, hinfix⟩ := commentTail_eq_some hcomment
      have hblock := Trivia.block hinfix hg
      simpa using hblock
    next => cases h
  next => cases h

private theorem isBlank_of_scan {c : Char} {kind : TokenKind}
    (h : scan wide c input = .lexeme (some kind) text rest) : isBlank c = false := by
  unfold scan at h
  split at h
  next => cases h
  next hc => simpa using hc

/-! ## Tokens and what stands between them -/

/-- The tokens of a text whose first character stands at an offset, each after its trivia. -/
inductive Tiled : Nat → List Char → List Token → Prop where
  | last (start : Nat) {gap : List Char} (hg : Trivia True gap) :
    Tiled start gap [.endOfFile (start + byteLength gap)]
  | token {start : Nat} {gap text rest : List Char} {c : Char} {kind : TokenKind}
    {tokens : List Token} (hg : Trivia False gap) (hk : kind ≠ .endOfFile)
    (hc : isBlank c = false)
        (h : Tiled (start + byteLength gap + byteLength (c :: text)) rest tokens) :
    Tiled start (gap ++ (c :: text ++ rest))
      (⟨kind, String.ofList (c :: text),
        ⟨start + byteLength gap, start + byteLength gap + byteLength (c :: text)⟩⟩ :: tokens)

/-- Trivia are added to what stands before the first token. -/
theorem Tiled.of_scan {start : Nat} {c : Char} (hs : scan wide c input = .lexeme none text rest)
    (h : Tiled (start + byteLength text) rest tokens) : Tiled start (text ++ rest) tokens := by
  cases h with
  | last _ hg =>
    rw [← List.append_nil rest] at hs
    rw [Nat.add_assoc, ← byteLength_append]
    exact .last start (trivia_of_scan hs hg (fun _ => trivial) nofun)
  | token hg hk hc h =>
    rw [Nat.add_assoc start, ← byteLength_append] at h ⊢
    rw [← List.append_assoc]
    refine .token (trivia_of_scan hs hg nofun ?_) hk hc h
    rintro ⟨⟩
    cases hc

/-- The tokens of an input tile it, by induction on how they are scanned. -/
private theorem tiled_of_tokensFrom {start : Nat} (h : tokensFrom wide start input = .ok tokens) :
    Tiled start input tokens := by
  fun_induction tokensFrom wide start input generalizing tokens with
  | case1 start =>
    cases h
    exact .last start .nil
  | case2 => cases h
  | case3 start c input text rest stop hs =>
    rename_i ih
    have hsplits := scan_splits wide c input
    rw [hs] at hsplits
    rw [← hsplits.2]
    exact .of_scan hs (ih h)
  | case4 start c input text rest stop kind hs =>
    rename_i ih
    cases hr : tokensFrom wide stop rest with
    | error error =>
      rw [hr] at h
      cases h
    | ok tokens =>
      rw [hr] at h
      cases h
      obtain ⟨w, -, rfl, rfl⟩ := lexeme_of_scan hs
      have hsplits := scan_splits wide c input
      rw [hs] at hsplits
      obtain ⟨hne, happ⟩ := hsplits
      have htiled : Tiled (start + byteLength w.text.toList) rest tokens := ih hr
      cases htext : w.text.toList with
      | nil => exact absurd htext hne
      | cons d cs =>
        rw [htext] at happ htiled
        obtain ⟨rfl, -⟩ := List.cons.inj happ
        rw [← happ, show stop = start + byteLength (d :: cs) from htext ▸ rfl]
        exact .token .nil w.kind_ne_endOfFile (isBlank_of_scan hs) htiled

private theorem Tiled.exists_front {start : Nat} (h : Tiled start input tokens) :
    ∃ front, tokens = front ++ [.endOfFile (start + byteLength input)] ∧
      ∀ token ∈ front, token.kind ≠ .endOfFile ∧ token.span.start < token.span.stop := by
  induction h with
  | last start hg => exact ⟨[], rfl, nofun⟩
  | @token start gap text rest c kind tokens hg hk hc h ih =>
    obtain ⟨front, rfl, hfront⟩ := ih
    have hlt : start + byteLength gap < start + byteLength gap + byteLength (c :: text) := by
      have := c.utf8Size_pos
      rw [byteLength_cons]
      omega
    refine ⟨⟨kind, String.ofList (c :: text), ⟨_, _⟩⟩ :: front, ?_,
      List.forall_mem_cons.mpr ⟨⟨hk, hlt⟩, hfront⟩⟩
    rw [byteLength_append, byteLength_append, List.cons_append, ← Nat.add_assoc, ← Nat.add_assoc]

private theorem Tiled.le_start {start : Nat} (h : Tiled start input tokens) :
    ∀ token ∈ tokens, start ≤ token.span.start := by
  induction h with
  | last start hg => simp [Token.endOfFile, Span.point]
  | token hg hk hc h ih =>
    refine List.forall_mem_cons.mpr ⟨Nat.le_add_right _ _, fun token hmem => ?_⟩
    have := ih token hmem
    omega

private theorem Tiled.pairwise {start : Nat} (h : Tiled start input tokens) :
    tokens.Pairwise fun a b => a.span.stop ≤ b.span.start := by
  induction h with
  | last => exact List.pairwise_singleton _ _
  | token hg hk hc h ih => exact List.pairwise_cons.mpr ⟨h.le_start, ih⟩

/-- The ranges before the tokens: up to the first one, and from each one to the next. -/
def gapsFrom (start : Nat) : List Token → List Span
  | [] => []
  | token :: tokens => ⟨start, token.span.start⟩ :: gapsFrom token.span.stop tokens

/-- Tokens and the gaps between them are slices of the source. -/
theorem Tiled.slices {source : String} {start : Nat} (h : Tiled start input tokens)
    (front : List Char) (hs : source.toList = front ++ input) (hstart : start = byteLength front) :
    (∀ token ∈ tokens, token.span.slice? source = some token.text) ∧
      ∀ gap ∈ gapsFrom start tokens, ∃ text, gap.slice? source = some text ∧
        Trivia (gap.stop = source.utf8ByteSize) text.toList := by
  induction h generalizing front with
  | @last start gap hg =>
    subst hstart
    have hend : byteLength front + byteLength gap = source.utf8ByteSize := by
      rw [utf8ByteSize_eq, hs, byteLength_append]
    constructor
    · have hslice := Span.slice?_of_toList (front ++ gap) [] [] (by simpa using hs)
      rw [byteLength_append] at hslice
      simpa [Token.endOfFile, Span.point] using hslice
    · have hslice := Span.slice?_of_toList front gap [] (by simpa using hs)
      have htrivia : Trivia (byteLength front + byteLength gap = source.utf8ByteSize)
          (String.ofList gap).toList := by
        rw [String.toList_ofList]
        exact hg.imp fun _ => hend
      simpa [gapsFrom, Token.endOfFile, Span.point] using ⟨_, hslice, htrivia⟩
  | @token start gap text rest c kind tokens hg hk hc h ih =>
    subst hstart
    have hnext : source.toList = (front ++ gap ++ (c :: text)) ++ rest := by
      rw [hs]
      simp
    obtain ⟨htokens, hgaps⟩ := ih _ hnext (by rw [byteLength_append, byteLength_append])
    constructor
    · refine List.forall_mem_cons.mpr ⟨?_, htokens⟩
      have hslice := Span.slice?_of_toList (front ++ gap) (c :: text) rest (by simpa using hs)
      rwa [byteLength_append] at hslice
    · refine List.forall_mem_cons.mpr ⟨⟨String.ofList gap, ?_, ?_⟩, hgaps⟩
      · exact Span.slice?_of_toList front gap _ hs
      · rw [String.toList_ofList]
        exact hg.imp False.elim

end Lexer

open Lexer

/-- Tokens cover a source in order, up to blanks and comments. -/
structure Tiles (source : String) (tokens : List Token) : Prop where
  /-- The last token stands for the end of the source, and every other one takes some of it. -/
  closed : ∃ front, tokens = front ++ [.endOfFile source.utf8ByteSize] ∧
    ∀ token ∈ front, token.kind ≠ .endOfFile ∧ token.span.start < token.span.stop
  /-- The tokens are in order and do not overlap. -/
  ordered : tokens.Pairwise fun a b => a.span.stop ≤ b.span.start
  /-- A token starts and ends at a boundary of characters. -/
  bounded : ∀ token ∈ tokens, String.Pos.Raw.IsValid source ⟨token.span.start⟩ ∧
    String.Pos.Raw.IsValid source ⟨token.span.stop⟩
  /-- The text of a token is what stands in its range. -/
  sliced : ∀ token ∈ tokens, token.span.slice? source = some token.text
  /-- Before every token stand blanks and comments only. -/
  between : ∀ gap ∈ gapsFrom 0 tokens, ∃ text, gap.slice? source = some text ∧
    Trivia (gap.stop = source.utf8ByteSize) text.toList

/-- The tokens of a source tile it. -/
theorem tiles_of_tokensFrom {wide : Char → Bool} {source : String} {tokens : List Token}
    (h : tokensFrom wide 0 source.toList = .ok tokens) : Tiles source tokens := by
  have htiled := tiled_of_tokensFrom h
  obtain ⟨hslices, hgaps⟩ := htiled.slices [] rfl rfl
  have hclosed := htiled.exists_front
  rw [Nat.zero_add, ← utf8ByteSize_eq] at hclosed
  exact ⟨hclosed, htiled.pairwise, fun token hmem => Span.isValid_of_slice? (hslices token hmem),
    hslices, hgaps⟩

end JavaFold
