import JavaFold.ParseError
import JavaFold.Text.Alphanumeric

/-!
# Cutting a source text into tokens

A source text is a sequence of lexemes: tokens and, between them, trivia (blanks and comments).
Every scanner splits its input into the characters it takes and the rest, so that nothing is lost or
added. Main statement: a lexeme takes at least one character from the front of the input and leaves
the others as they are (`scan_splits`).

Which characters beyond ASCII belong to identifiers is a parameter.
-/

namespace JavaFold

namespace Lexer

/-- The characters that only separate tokens: space, tab, line feed, carriage return, form feed. -/
def isBlank (c : Char) : Bool :=
  c = ' ' || c = '\t' || c = '\n' || c = '\r' || c = '\x0c'

/-- Whether an identifier can start with an ASCII character. -/
def isIdentifierStart (c : Char) : Bool :=
  c.isAlpha || c = '_' || c = '$'

/-- Whether a character lies outside ASCII. -/
def isWide (c : Char) : Bool :=
  128 ≤ c.toNat

/-- Whether an identifier can go on with a character; `wide` decides outside ASCII. -/
def isIdentifierPart (wide : Char → Bool) (c : Char) : Bool :=
  if isWide c then wide c else isIdentifierStart c || c.isDigit

/-- A block comment up to its end, the input starting after its opening. -/
def commentTail : List Char → Option (List Char × List Char)
  | [] => none
  | '*' :: '/' :: rest => some (['*', '/'], rest)
  | c :: rest => (commentTail rest).map fun (taken, rest) => (c :: taken, rest)

/-- A quoted literal up to its closing quote, the input starting after the opening one. A backslash
keeps the next character from closing the literal. Without a rest, the literal is not closed before
the end of the line. -/
def quotedTail (quote : Char) : List Char → List Char × Option (List Char)
  | [] => ([], none)
  | c :: rest =>
    if c = '\\' then
      match rest with
      | [] => ([c], none)
      | d :: rest =>
        if d = '\n' then ([c], none)
        else
          let (taken, rest) := quotedTail quote rest
          (c :: d :: taken, rest)
    else if c = quote then ([c], some rest)
    else if c = '\n' then ([], none)
    else
      let (taken, rest) := quotedTail quote rest
      (c :: taken, rest)

/-- The longest run of accepted characters. -/
def run (accept : Char → Bool) (input : List Char) : List Char × List Char :=
  (input.takeWhile accept, input.dropWhile accept)

/-- The longest run of digits and underscores. -/
def digits (isDigit : Char → Bool) : List Char → List Char × List Char :=
  run fun c => isDigit c || c = '_'

/-- One character, if it is accepted. -/
def option (accept : Char → Bool) : List Char → List Char × List Char
  | [] => ([], [])
  | c :: rest => if accept c then ([c], rest) else ([], c :: rest)

/-- Whether a character is a hexadecimal digit. -/
def isHexDigit (c : Char) : Bool :=
  c.isDigit || ('a' ≤ c && c ≤ 'f') || ('A' ≤ c && c ≤ 'F')

/-- Whether a character is a binary digit. -/
def isBinaryDigit (c : Char) : Bool :=
  c = '0' || c = '1'

/-- Whether a point that is followed by `rest` belongs to the number before it. It does not when it
selects a member of the number or starts an ellipsis. -/
def pointContinues : List Char → Bool
  | [] => true
  | c :: _ =>
    c.isDigit || !(isIdentifierStart c || c = '.') || "eEfFdD".toList.contains c

/-- The fraction of a number. -/
def fraction (input : List Char) : List Char × List Char :=
  match input with
  | '.' :: rest =>
    if pointContinues rest then
      let (taken, rest) := digits Char.isDigit rest
      ('.' :: taken, rest)
    else ([], input)
  | _ => ([], input)

/-- The digits of an exponent, if there are any. -/
def exponentDigits : List Char → Option (List Char × List Char)
  | [] => none
  | c :: rest => if c.isDigit then some (digits Char.isDigit (c :: rest)) else none

/-- The exponent of a number: a mark, an optional sign and at least one digit. -/
def exponent (input : List Char) : List Char × List Char :=
  match input with
  | [] => ([], [])
  | c :: rest =>
    if c = 'e' || c = 'E' then
      let (sign, rest) := option (fun s => s = '+' || s = '-') rest
      match exponentDigits rest with
      | some (taken, rest) => (c :: sign ++ taken, rest)
      | none => ([], input)
    else ([], input)

/-- A number without a radix mark. -/
def decimal (input : List Char) : List Char × List Char :=
  let (whole, rest) := digits Char.isDigit input
  let (part, rest) := fraction rest
  let (power, rest) := exponent rest
  let (suffix, rest) := option ("lLfFdD".toList.contains ·) rest
  (whole ++ part ++ power ++ suffix, rest)

/-- The digits and the suffix of a number after its radix mark. -/
def radixTail (accept : Char → Bool) (input : List Char) : List Char × List Char :=
  let (taken, rest) := digits accept input
  let (suffix, rest) := option (fun c => c = 'l' || c = 'L') rest
  (taken ++ suffix, rest)

/-- A number. -/
def number (input : List Char) : List Char × List Char :=
  match input with
  | '0' :: mark :: rest =>
    if mark = 'x' || mark = 'X' then
      let (taken, rest) := radixTail isHexDigit rest
      ('0' :: mark :: taken, rest)
    else if mark = 'b' || mark = 'B' then
      let (taken, rest) := radixTail isBinaryDigit rest
      ('0' :: mark :: taken, rest)
    else decimal input
  | _ => decimal input

/-- Whether a number starts here. -/
def startsNumber : List Char → Bool
  | [] => false
  | c :: rest => c.isDigit || (c = '.' && (rest.head?.any Char.isDigit))

/-- Why no lexeme could be taken. -/
inductive Fault where
  | character (char : Char)
  | comment
  | literal (quoted : QuotedLiteral)
  deriving DecidableEq, Repr

/-- The refusal that a fault leads to, given the part of the source it covers. -/
def Fault.error (span : Span) : Fault → ParseError
  | .character char => .unexpectedCharacter char span
  | .comment => .unterminatedComment span
  | .literal quoted => .unterminatedLiteral quoted span

/-- The outcome of looking for one lexeme at the front of a text. -/
inductive Scan where
  /-- A lexeme and what follows it; trivia have no token class. -/
  | lexeme (kind : Option TokenKind) (text rest : List Char)
  /-- No lexeme, because of the given characters. -/
  | fault (fault : Fault) (text : List Char)
  deriving DecidableEq, Repr

/-- An identifier or a reserved word, if the text starts with one. -/
def scanWord (wide : Char → Bool) (c : Char) (rest : List Char) : Scan :=
  match run (isIdentifierPart wide) (c :: rest) with
  | ([], _) => .fault (.character c) [c]
  | (text, rest) =>
    let kind := match Keyword.ofText? (String.ofList text) with
      | some keyword => .keyword keyword
      | none => .identifier
    .lexeme (some kind) text rest

/-- A quoted literal whose opening quote has been seen. -/
def scanQuoted (literal : QuotedLiteral) (quote : Char) (rest : List Char) : Scan :=
  match quotedTail quote rest with
  | (taken, some rest) => .lexeme (some literal.kind) (quote :: taken) rest
  | (taken, none) => .fault (.literal literal) (quote :: taken)

/-- The longest punctuator at the front of a text. -/
def scanPunctuator (c : Char) (rest : List Char) : Scan :=
  match Punctuator.byLength.find? fun p => p.text.toList.isPrefixOf (c :: rest) with
  | some p =>
    let text := p.text.toList
    .lexeme (some (.punctuator p)) text ((c :: rest).drop text.length)
  | none => .fault (.character c) [c]

/-- The comment at the front of a text, if one starts there. -/
def scanComment? : List Char → Option Scan
  | '/' :: '/' :: rest =>
    let (text, rest) := run (· != '\n') rest
    some (.lexeme none ('/' :: '/' :: text) rest)
  | '/' :: '*' :: rest =>
    match commentTail rest with
    | some (text, rest) => some (.lexeme none ('/' :: '*' :: text) rest)
    | none => some (.fault .comment ('/' :: '*' :: rest))
  | _ => none

/-- The lexeme at the front of the text `c :: rest`. -/
def scan (wide : Char → Bool) (c : Char) (rest : List Char) : Scan :=
  if isBlank c then .lexeme none [c] rest
  else match scanComment? (c :: rest) with
  | some comment => comment
  | none =>
    if isIdentifierStart c || isWide c then scanWord wide c rest
    else if startsNumber (c :: rest) then
      let (text, rest) := number (c :: rest)
      .lexeme (some .number) text rest
    else if c = '\'' then scanQuoted .character c rest
    else if c = '"' then scanQuoted .string c rest
    else scanPunctuator c rest

/-! ## Nothing is lost -/

/-- A run and the rest are the input. -/
@[simp] theorem run_append (accept : Char → Bool) (input : List Char) :
    (run accept input).1 ++ (run accept input).2 = input :=
  List.takeWhile_append_dropWhile

@[simp] theorem digits_append (isDigit : Char → Bool) (input : List Char) :
    (digits isDigit input).1 ++ (digits isDigit input).2 = input :=
  run_append _ _

@[simp] theorem option_append (accept : Char → Bool) (input : List Char) :
    (option accept input).1 ++ (option accept input).2 = input := by
  cases input with
  | nil => rfl
  | cons c rest => by_cases h : accept c <;> simp [option, h]

/-- The tail of a comment and the rest are the input. -/
theorem commentTail_append {input taken rest : List Char}
    (h : commentTail input = some (taken, rest)) : taken ++ rest = input := by
  fun_induction commentTail input generalizing taken rest with
  | case1 => simp at h
  | case2 => cases h; rfl
  | case3 c input _ ih =>
    obtain ⟨⟨taken', rest'⟩, h', e⟩ := Option.map_eq_some_iff.1 h
    cases e
    simp [ih h']

/-- The tail of a quoted literal and the rest are the input. -/
theorem quotedTail_append {quote : Char} {input taken rest : List Char}
    (h : quotedTail quote input = (taken, some rest)) : taken ++ rest = input := by
  fun_induction quotedTail quote input generalizing taken rest with
  | case1 => cases h
  | case2 => cases h
  | case3 => cases h
  | case4 d input hd taken' rest' e ih => cases h; simp [ih e]
  | case5 => cases h; rfl
  | case6 => cases h
  | case7 c input _ _ _ taken' rest' e ih => cases h; simp [ih e]

/-- What a quoted literal takes stands at the front of the input, whether or not it is closed. -/
theorem quotedTail_takes (quote : Char) (input : List Char) :
    ∃ tail, (quotedTail quote input).1 ++ tail = input := by
  fun_induction quotedTail quote input with
  | case1 => exact ⟨[], rfl⟩
  | case2 => exact ⟨[], rfl⟩
  | case3 input => exact ⟨'\n' :: input, rfl⟩
  | case4 d input hd taken' rest' e ih =>
    obtain ⟨tail, ht⟩ := ih
    exact ⟨tail, by simpa [e] using ht⟩
  | case5 input => exact ⟨input, rfl⟩
  | case6 input => exact ⟨'\n' :: input, rfl⟩
  | case7 c input _ _ _ taken' rest' e ih =>
    obtain ⟨tail, ht⟩ := ih
    exact ⟨tail, by simpa [e] using ht⟩

@[simp] theorem fraction_append (input : List Char) :
    (fraction input).1 ++ (fraction input).2 = input := by
  unfold fraction
  split
  · split <;> simp
  · simp

/-- The digits of an exponent and the rest are the input. -/
theorem exponentDigits_append {input taken rest : List Char}
    (h : exponentDigits input = some (taken, rest)) : taken ++ rest = input := by
  cases input with
  | nil => cases h
  | cons c input =>
    rw [exponentDigits] at h
    split at h
    · rw [← digits_append Char.isDigit (c :: input), Option.some.inj h]
    · cases h

@[simp] theorem exponent_append (input : List Char) :
    (exponent input).1 ++ (exponent input).2 = input := by
  cases input with
  | nil => rfl
  | cons c rest =>
    rw [exponent]
    split
    · have ha := option_append (fun s => s = '+' || s = '-') rest
      generalize option (fun s => s = '+' || s = '-') rest = parts at ha ⊢
      obtain ⟨sign, tail⟩ := parts
      cases ht : exponentDigits tail with
      | none => simp [ht]
      | some parts => simpa [ht, exponentDigits_append ht] using ha
    · rfl

@[simp] theorem decimal_append (input : List Char) :
    (decimal input).1 ++ (decimal input).2 = input := by
  simp [decimal]

@[simp] theorem radixTail_append (isDigit : Char → Bool) (input : List Char) :
    (radixTail isDigit input).1 ++ (radixTail isDigit input).2 = input := by
  simp [radixTail]

/-- A number and the rest are the input. -/
@[simp] theorem number_append (input : List Char) :
    (number input).1 ++ (number input).2 = input := by
  unfold number
  split
  · split
    · simp
    · split <;> simp
  · simp

private theorem number_cons_of_isDigit {c : Char} (hc : c.isDigit = true) (rest : List Char) :
    (number (c :: rest)).1 ≠ [] := by
  have hd : (decimal (c :: rest)).1 ≠ [] := by simp [decimal, digits, run, hc]
  unfold number
  split
  · split
    · simp
    · split
      · simp
      · exact hd
  · exact hd

private theorem number_cons_point {d : Char} (hd : d.isDigit = true) (rest : List Char) :
    (number ('.' :: d :: rest)).1 ≠ [] := by
  have hp : pointContinues (d :: rest) = true := by simp [pointContinues, hd]
  have hw : digits Char.isDigit ('.' :: d :: rest) = ([], '.' :: d :: rest) := by
    simp [digits, run, Char.isDigit]
  simp [number, decimal, hw, fraction, hp]

/-- A text that starts a number gives at least one character to it. -/
theorem number_ne_nil {input : List Char} (h : startsNumber input = true) :
    (number input).1 ≠ [] := by
  match input with
  | [] => cases h
  | c :: rest =>
    by_cases hc : c.isDigit
    · exact number_cons_of_isDigit hc rest
    · match rest with
      | [] => simp [startsNumber, hc] at h
      | d :: rest =>
        simp only [startsNumber, hc, Bool.false_or, Bool.and_eq_true, decide_eq_true_eq,
          List.head?_cons, Option.any_some] at h
        obtain ⟨rfl, hd⟩ := h
        exact number_cons_point hd rest

/-- The parts that a scan leaves: a lexeme takes something and keeps the rest. -/
def Scan.Splits (input : List Char) : Scan → Prop
  | .lexeme _ text rest => text ≠ [] ∧ text ++ rest = input
  | .fault _ text => text ≠ [] ∧ ∃ rest, text ++ rest = input

/-- A word that is scanned is the front of the input. -/
theorem scanWord_splits (wide : Char → Bool) (c : Char) (rest : List Char) :
    (scanWord wide c rest).Splits (c :: rest) := by
  have h := run_append (isIdentifierPart wide) (c :: rest)
  unfold scanWord
  split
  next hr => exact ⟨by simp, rest, rfl⟩
  next text tail hne hr =>
    rw [hr] at h
    exact ⟨hne, h⟩

/-- A comment that is scanned is the front of the input. -/
theorem scanComment?_splits {input : List Char} {scan : Scan}
    (h : scanComment? input = some scan) : scan.Splits input := by
  unfold scanComment? at h
  split at h
  · cases h; simp [Scan.Splits]
  · split at h
    next ht => cases h; simp [Scan.Splits, commentTail_append ht]
    next => cases h; exact ⟨by simp, [], by simp⟩
  · cases h

/-- A quoted literal that is scanned is the front of the input. -/
theorem scanQuoted_splits (literal : QuotedLiteral) (quote : Char) (rest : List Char) :
    (scanQuoted literal quote rest).Splits (quote :: rest) := by
  unfold scanQuoted
  split
  next h => exact ⟨by simp, by simp [quotedTail_append h]⟩
  next taken h =>
    obtain ⟨tail, ht⟩ := quotedTail_takes quote rest
    exact ⟨by simp, tail, by simpa [h] using ht⟩

/-- A punctuator that is scanned is the front of the input. -/
theorem scanPunctuator_splits (c : Char) (rest : List Char) :
    (scanPunctuator c rest).Splits (c :: rest) := by
  unfold scanPunctuator
  split
  next p hp =>
    have hpre := List.find?_some hp
    refine ⟨?_, ?_⟩
    · cases p <;> decide
    · obtain ⟨tail, ht⟩ := List.isPrefixOf_iff_prefix.1 hpre
      simp [← ht]
  next => exact ⟨by simp, rest, rfl⟩

/-- The characters of a lexeme come from the front of the input, and there is at least one. -/
theorem scan_splits (wide : Char → Bool) (c : Char) (rest : List Char) :
    (scan wide c rest).Splits (c :: rest) := by
  unfold scan
  split
  · exact ⟨by simp, rfl⟩
  split
  next hs => exact scanComment?_splits hs
  split
  · exact scanWord_splits wide c rest
  split
  next hn => exact ⟨number_ne_nil hn, number_append _⟩
  split
  · exact scanQuoted_splits .character c rest
  split
  · exact scanQuoted_splits .string c rest
  · exact scanPunctuator_splits c rest

/-- A lexeme leaves less than it was given. -/
theorem scan_rest_lt {wide : Char → Bool} {c : Char} {input : List Char}
    {kind : Option TokenKind} {text rest : List Char}
    (h : scan wide c input = .lexeme kind text rest) : rest.length < (c :: input).length := by
  have hs := scan_splits wide c input
  rw [h] at hs
  obtain ⟨hne, happ⟩ := hs
  rw [← happ, List.length_append]
  have := List.length_pos_iff.2 hne
  omega

/-- The tokens of a text whose first character stands at the byte offset `start`. -/
def tokensFrom (wide : Char → Bool) (start : Nat) (input : List Char) :
    Except ParseError (List Token) :=
  match input with
  | [] => .ok [.endOfFile start]
  | c :: input =>
    match h : scan wide c input with
    | .fault fault text => .error (fault.error ⟨start, start + byteLength text⟩)
    | .lexeme kind text rest =>
      have := scan_rest_lt h
      let stop := start + byteLength text
      match kind with
      | none => tokensFrom wide stop rest
      | some kind => do
        let tokens ← tokensFrom wide stop rest
        return ⟨kind, String.ofList text, ⟨start, stop⟩⟩ :: tokens
termination_by input.length
decreasing_by all_goals exact this

end Lexer

/-- The length in bytes up to which a source is read. -/
def maxSourceBytes : Nat := 4294967295

/-- Cut a source text into tokens, the last of which marks its end. Outside ASCII, `wide` tells
which characters belong to identifiers. -/
def tokenizeWith (wide : Char → Bool) (source : String) : Except ParseError (List Token) :=
  if maxSourceBytes < source.utf8ByteSize then .error (.sourceTooLarge source.utf8ByteSize)
  else Lexer.tokensFrom wide 0 source.toList

/-- Cut a source text into tokens, identifiers being made of letters and numbers. -/
def tokenize (source : String) : Except ParseError (List Token) :=
  tokenizeWith Text.isAlphanumeric source

end JavaFold
