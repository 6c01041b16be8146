import JavaFold.Proofs.Token.Lexeme

/-!
# The scanners on bytes

All scanners but the one for words look for ASCII characters only, and no byte of another character
is one. So they can be run on the bytes of a text, each taken as the character of its number
(`utf8`), and stop at the same places. A byte of another character is stepped over, also after a
backslash and inside a comment, and the rest of its character follows before anything is looked for
again. Main statement: a lexeme that is no word is found on bytes where it is found on characters
(`scan_utf8`).
-/

namespace JavaFold

namespace Lexer

variable {wide accept : Char → Bool} {input rest : List Char} {b c : Char}

/-! ## Bytes -/

/-- The bytes of a text in UTF-8, each as the character of its number. -/
def utf8 (text : List Char) : List Char :=
  text.flatMap fun c => (String.utf8EncodeChar c).map Char.ofUInt8

@[simp] theorem utf8_nil : utf8 [] = [] := rfl

/-- The bytes of the first character come before those of the others. -/
theorem utf8_cons (c : Char) (cs : List Char) : utf8 (c :: cs) = utf8 [c] ++ utf8 cs := by
  simp [utf8]

/-- The bytes of two texts stand one after the other. -/
theorem utf8_append (cs ds : List Char) : utf8 (cs ++ ds) = utf8 cs ++ utf8 ds :=
  List.flatMap_append

/-- There are as many bytes as the lengths of the characters say. -/
theorem length_utf8 (cs : List Char) : (utf8 cs).length = byteLength cs := by
  induction cs with
  | nil => rfl
  | cons c cs ih =>
    rw [utf8_cons, List.length_append, ih, byteLength_cons]
    simp [utf8]

/-- The bytes of a source, each as the character of its number. -/
def bytesOf (source : String) : List Char :=
  source.toByteArray.data.toList.map Char.ofUInt8

/-- The bytes of a source are those of its characters in order. -/
theorem bytesOf_eq (source : String) : bytesOf source = utf8 source.toList := by
  rw [bytesOf, ← String.utf8Encode_toList, List.utf8Encode, List.data_toByteArray, utf8,
    List.map_flatMap]

private theorem isWide_ofUInt8 {n : Nat} (h : 128 ≤ n) (hlt : n < 256) :
    isWide (Char.ofUInt8 (UInt8.ofNat n)) = true := by
  have hn : (UInt8.ofNat n).toNat = n := by
    rw [UInt8.toNat_ofNat']
    omega
  apply decide_eq_true
  change 128 ≤ (UInt8.ofNat n).toNat
  omega

/-- An ASCII character is its own byte. -/
theorem utf8_narrow (h : isWide c = false) : utf8 [c] = [c] := by
  have hsmall : c.val.toNat ≤ 127 := by
    have : ¬ 128 ≤ c.val.toNat := of_decide_eq_false h
    omega
  have hbyte : Char.ofUInt8 (UInt8.ofNat c.val.toNat) = c := by
    apply Char.ext
    apply UInt32.toNat.inj
    change (UInt8.ofNat c.val.toNat).toNat = _
    rw [UInt8.toNat_ofNat']
    omega
  rw [utf8, List.flatMap_singleton, String.utf8EncodeChar, if_pos hsmall, List.map_singleton, hbyte]

/-- No byte of another character is an ASCII character. -/
theorem isWide_of_mem_utf8 (h : isWide c = true) (hb : b ∈ utf8 [c]) : isWide b = true := by
  have hlarge : ¬ c.val.toNat ≤ 127 := by
    have : 128 ≤ c.val.toNat := of_decide_eq_true h
    omega
  rw [utf8, List.flatMap_singleton, String.utf8EncodeChar, if_neg hlarge] at hb
  split at hb
  · simp only [List.map_cons, List.map_nil, List.mem_cons, List.not_mem_nil, or_false] at hb
    rcases hb with rfl | rfl <;> apply isWide_ofUInt8 <;> omega
  split at hb
  · simp only [List.map_cons, List.map_nil, List.mem_cons, List.not_mem_nil, or_false] at hb
    rcases hb with rfl | rfl | rfl <;> apply isWide_ofUInt8 <;> omega
  · simp only [List.map_cons, List.map_nil, List.mem_cons, List.not_mem_nil, or_false] at hb
    rcases hb with rfl | rfl | rfl | rfl <;> apply isWide_ofUInt8 <;> omega

/-- A narrow character is its only byte. -/
theorem utf8_cons_narrow (h : isWide c = false) (cs : List Char) :
    utf8 (c :: cs) = c :: utf8 cs := by
  rw [utf8_cons, utf8_narrow h, List.singleton_append]

/-- Another character starts with a byte that is no ASCII character, and others follow. -/
theorem exists_utf8_cons (h : isWide c = true) :
    ∃ b bs, (∀ cs, utf8 (c :: cs) = b :: (bs ++ utf8 cs)) ∧ isWide b = true ∧
      ∀ x ∈ bs, isWide x = true := by
  have hne : utf8 [c] ≠ [] := by
    rw [utf8, List.flatMap_singleton, ne_eq, List.map_eq_nil_iff]
    exact String.utf8EncodeChar_ne_nil
  obtain ⟨b, bs, hb⟩ := List.exists_cons_of_ne_nil hne
  have hwide : ∀ x ∈ b :: bs, isWide x = true := fun x hx => isWide_of_mem_utf8 h (hb ▸ hx)
  obtain ⟨hb', hbs⟩ := List.forall_mem_cons.mp hwide
  exact ⟨b, bs, fun cs => by rw [utf8_cons, hb, List.cons_append], hb', hbs⟩

/-- Every character has a byte. -/
theorem exists_utf8_eq_cons (c : Char) (cs : List Char) : ∃ b bs, utf8 (c :: cs) = b :: bs := by
  cases hc : isWide c with
  | false => exact ⟨c, utf8 cs, utf8_cons_narrow hc cs⟩
  | true =>
    obtain ⟨b, bs, hu, -⟩ := exists_utf8_cons hc
    exact ⟨b, _, hu cs⟩

private theorem utf8_narrow_append {taken : List Char} (h : ∀ c ∈ taken, isWide c = false)
    (rest : List Char) : utf8 (taken ++ rest) = taken ++ utf8 rest := by
  induction taken with
  | nil => rfl
  | cons c taken ih =>
    obtain ⟨hc, htaken⟩ := List.forall_mem_cons.mp h
    rw [List.cons_append, utf8_cons_narrow hc, ih htaken, List.cons_append]

/-! ## Tests for ASCII characters -/

/-- A test that only ASCII characters pass. -/
def Narrow (accept : Char → Bool) : Prop :=
  ∀ c, isWide c = true → accept c = false

/-- Only ASCII characters pass one of two tests that only they pass. -/
theorem Narrow.or {p q : Char → Bool} (hp : Narrow p) (hq : Narrow q) :
    Narrow fun c => p c || q c := by
  intro c hc
  simp only [hp c hc, hq c hc, Bool.false_or]

private theorem ne_of_isWide {x : Char} (hc : isWide c = true) (hx : isWide x = false) : c ≠ x := by
  rintro rfl
  rw [hx] at hc
  cases hc

private theorem narrow_eq {x : Char} (hx : isWide x = false) : Narrow (· = x) :=
  fun _ hc => decide_eq_false (ne_of_isWide hc hx)

/-- Whether a text is written in ASCII. -/
def isAscii (text : List Char) : Bool :=
  text.all fun c => !isWide c

private theorem isWide_of_isAscii {text : List Char} (h : isAscii text = true) :
    ∀ x ∈ text, isWide x = false := by
  intro x hx
  have hall := List.all_eq_true.1 h x hx
  simpa using hall

private theorem narrow_contains {xs : List Char} (hxs : isAscii xs = true) : Narrow
    (xs.contains ·) := by
  intro c hc
  simp only [List.contains_eq_mem, decide_eq_false_iff_not]
  intro hmem
  rw [isWide_of_isAscii hxs c hmem] at hc
  cases hc

/-- Nothing outside ASCII passes a test that bounds what passes it by an ASCII character. -/
theorem narrow_of_le {y : Char} (hy : isWide y = false) (h : ∀ c, accept c = true → c ≤ y) :
    Narrow accept := by
  intro c hc
  have hlarge : 128 ≤ c.toNat := of_decide_eq_true hc
  have hsmall : ¬ 128 ≤ y.toNat := of_decide_eq_false hy
  refine Bool.eq_false_iff.2 fun ha => ?_
  have hle : c.toNat ≤ y.toNat := h c ha
  omega

private theorem narrow_range (x : Char) {y : Char} (hy : isWide y = false) :
    Narrow fun c => x ≤ c && c ≤ y :=
  narrow_of_le hy fun _ h => of_decide_eq_true (Bool.and_eq_true_iff.1 h).2

private theorem narrow_isDigit : Narrow Char.isDigit :=
  narrow_range '0' rfl

private theorem narrow_isUpper : Narrow Char.isUpper :=
  narrow_of_le (y := 'Z') rfl fun _ h => (of_decide_eq_true h).2

private theorem narrow_isLower : Narrow Char.isLower :=
  narrow_range 'a' rfl

private theorem narrow_isAlpha : Narrow Char.isAlpha :=
  narrow_isUpper.or narrow_isLower

/-- No wide character starts an identifier by the test for ASCII. -/
theorem narrow_isIdentifierStart : Narrow isIdentifierStart :=
  (narrow_isAlpha.or (narrow_eq rfl)).or (narrow_eq rfl)

private theorem narrow_isHexDigit : Narrow isHexDigit :=
  (narrow_isDigit.or (narrow_range 'a' rfl)).or (narrow_range 'A' rfl)

private theorem narrow_isBinaryDigit : Narrow isBinaryDigit :=
  (narrow_eq rfl).or (narrow_eq rfl)

/-- What is first among the bytes passes a test for ASCII characters if the first character does. -/
theorem any_head?_utf8 (h : Narrow accept) (input : List Char) :
    (utf8 input).head?.any accept = input.head?.any accept := by
  cases input with
  | nil => rfl
  | cons c input =>
    cases hc : isWide c with
    | false => rw [utf8_cons_narrow hc, List.head?_cons, List.head?_cons]
    | true =>
      obtain ⟨b, bs, hu, hb, -⟩ := exists_utf8_cons hc
      rw [hu, List.head?_cons, List.head?_cons, Option.any_some, Option.any_some, h b hb, h c hc]

private theorem head?_utf8_eq_some {x : Char} (hx : isWide x = false) :
    (utf8 input).head? = some x ↔ input.head? = some x := by
  have hany := any_head?_utf8 (narrow_eq hx) input
  cases hi : input.head? <;> cases hu : (utf8 input).head? <;> simp_all

private theorem exists_of_utf8_eq_cons {x : Char} {tail : List Char} (hx : isWide x = false)
    (h : utf8 input = x :: tail) : ∃ rest, input = x :: rest ∧ tail = utf8 rest := by
  have hhead : (utf8 input).head? = some x := by rw [h, List.head?_cons]
  obtain ⟨rest, rfl⟩ := List.head?_eq_some_iff.1 ((head?_utf8_eq_some hx).1 hhead)
  rw [utf8_cons_narrow hx] at h
  exact ⟨rest, rfl, (List.cons.inj h).2.symm⟩

/-! ## Runs and numbers -/

/-- A test that treats all characters outside ASCII alike. -/
def Uniform (accept : Char → Bool) : Prop :=
  ∀ b c, isWide b = true → isWide c = true → accept b = accept c

private theorem Narrow.uniform (h : Narrow accept) : Uniform accept :=
  fun b c hb hc => (h b hb).trans (h c hc).symm

private theorem Uniform.eq_of_mem (h : Uniform accept) (hb : b ∈ utf8 [c]) :
    accept b = accept c := by
  cases hc : isWide c with
  | false =>
    rw [utf8_narrow hc, List.mem_singleton] at hb
    rw [hb]
  | true => exact h b c (isWide_of_mem_utf8 hc hb) hc

/-- A run of characters is a run of bytes, for a test that passes all bytes of a character or none.
-/
private theorem run_utf8 (h : Uniform accept) (input : List Char) :
    run accept (utf8 input) = (run accept input).map utf8 utf8 := by
  obtain ⟨taken, rest, hr⟩ : ∃ taken rest, run accept input = (taken, rest) := ⟨_, _, rfl⟩
  have hinput := run_append accept input
  have htaken : ∀ c ∈ taken, accept c = true := by
    cases hr
    exact fun c hc => List.all_eq_true.mp List.all_takeWhile c hc
  have hbytes : ∀ b ∈ utf8 taken, accept b = true := by
    intro b hb
    obtain ⟨c, hc, hb⟩ := List.mem_flatMap.mp hb
    rw [h.eq_of_mem (by simpa [utf8] using hb), htaken c hc]
  have hstops : Stops accept (utf8 rest) := by
    have hrest := run_stops hr
    cases rest with
    | nil => exact stops_nil
    | cons c rest =>
      intro d hd
      cases hc : isWide c with
      | false =>
        rw [utf8_cons_narrow hc] at hd
        cases hd
        exact hrest c rfl
      | true =>
        obtain ⟨b, bs, hu, hb, -⟩ := exists_utf8_cons hc
        rw [hu] at hd
        cases hd
        rw [h _ c hb hc, hrest c rfl]
  rw [hr] at hinput ⊢
  rw [← hinput, utf8_append]
  exact run_append_stops hbytes hstops

private theorem digits_utf8 (h : Narrow accept) (input : List Char) :
    digits accept (utf8 input) = (digits accept input).map utf8 utf8 :=
  run_utf8 (h.or (narrow_eq rfl)).uniform input

private theorem option_utf8 (h : Narrow accept) (input : List Char) :
    option accept (utf8 input) = (option accept input).map utf8 utf8 := by
  cases input with
  | nil => rfl
  | cons c input =>
    cases hc : isWide c with
    | false => cases ha : accept c <;> simp [option, utf8_cons_narrow hc, ha]
    | true =>
      obtain ⟨b, bs, hu, hb, -⟩ := exists_utf8_cons hc
      simp [option, hu, h b hb, h c hc]

private theorem pointContinues_utf8 (input : List Char) :
    pointContinues (utf8 input) = pointContinues input := by
  cases input with
  | nil => rfl
  | cons c input =>
    cases hc : isWide c with
    | false => rw [utf8_cons_narrow hc, pointContinues, pointContinues]
    | true =>
      obtain ⟨b, bs, hu, hb, -⟩ := exists_utf8_cons hc
      have hpoint (d : Char) (hd : isWide d = true) (rest : List Char) :
          pointContinues (d :: rest) = true := by
        simp [pointContinues, narrow_isIdentifierStart d hd, ne_of_isWide (x := '.') hd rfl]
      rw [hu, hpoint b hb, hpoint c hc]

private theorem fraction_utf8 (input : List Char) :
    fraction (utf8 input) = (fraction input).map utf8 utf8 := by
  by_cases hpoint : input.head? = some '.'
  · obtain ⟨rest, rfl⟩ := List.head?_eq_some_iff.1 hpoint
    have hcons := utf8_cons_narrow (c := '.') rfl
    rw [hcons, fraction, fraction, pointContinues_utf8, digits_utf8 narrow_isDigit]
    split <;> simp [hcons]
  · rw [fraction_of_head?_ne hpoint, fraction_of_head?_ne fun h => hpoint
      ((head?_utf8_eq_some rfl).1 h)]
    rfl

private theorem exponentDigits_utf8 (input : List Char) :
    exponentDigits (utf8 input) = (exponentDigits input).map (Prod.map utf8 utf8) := by
  cases input with
  | nil => rfl
  | cons c input =>
    have hdigits := digits_utf8 narrow_isDigit (c :: input)
    cases hc : isWide c with
    | false =>
      rw [utf8_cons_narrow hc] at hdigits ⊢
      rw [exponentDigits, exponentDigits, hdigits]
      split <;> rfl
    | true =>
      obtain ⟨b, bs, hu, hb, -⟩ := exists_utf8_cons hc
      simp [hu, exponentDigits, narrow_isDigit b hb, narrow_isDigit c hc]

private theorem exponent_utf8 (input : List Char) :
    exponent (utf8 input) = (exponent input).map utf8 utf8 := by
  cases input with
  | nil => rfl
  | cons c input =>
    have hmark : Narrow fun c => c = 'e' || c = 'E' := (narrow_eq rfl).or (narrow_eq rfl)
    have hsign : Narrow fun s => s = '+' || s = '-' := (narrow_eq rfl).or (narrow_eq rfl)
    cases hc : isWide c with
    | false =>
      rw [utf8_cons_narrow hc, exponent, exponent]
      split
      next =>
        simp only [option_utf8 hsign, Prod.map_fst, Prod.map_snd, exponentDigits_utf8]
        cases exponentDigits (option (fun s => s = '+' || s = '-') input).2 with
        | none => simp [utf8_cons_narrow hc]
        | some parts => simp [utf8_cons_narrow hc, utf8_append]
      next => simp [utf8_cons_narrow hc]
    | true =>
      obtain ⟨b, bs, hu, hb, -⟩ := exists_utf8_cons hc
      have hnone (d : Char) (hd : isWide d = true) (rest : List Char) :
          exponent (d :: rest) = ([], d :: rest) := by
        exact if_neg (Bool.eq_false_iff.1 (hmark d hd))
      simp [hu, hnone b hb, hnone c hc]

private theorem decimal_utf8 (input : List Char) :
    decimal (utf8 input) = (decimal input).map utf8 utf8 := by
  have hsuffix : Narrow ("lLfFdD".toList.contains ·) := narrow_contains (by decide)
  simp only [decimal, digits_utf8 narrow_isDigit, fraction_utf8, exponent_utf8,
    option_utf8 hsuffix, Prod.map, utf8_append]

private theorem radixTail_utf8 (h : Narrow accept) (input : List Char) :
    radixTail accept (utf8 input) = (radixTail accept input).map utf8 utf8 := by
  have hsuffix : Narrow fun c => c = 'l' || c = 'L' := (narrow_eq rfl).or (narrow_eq rfl)
  simp [radixTail, digits_utf8 h, option_utf8 hsuffix, utf8_append]

/-- A second character that does not mark a radix is not turned into one. -/
theorem unmarked_utf8 (h : Unmarked input) : Unmarked (utf8 input) := by
  unfold Unmarked
  split
  next mark tail heq =>
    obtain ⟨rest, rfl, htail⟩ := exists_of_utf8_eq_cons rfl heq
    cases hm : isWide mark with
    | false =>
      obtain ⟨rest, rfl, -⟩ := exists_of_utf8_eq_cons hm htail.symm
      exact h
    | true =>
      have hmark : Narrow fun c => c = 'x' || c = 'X' := (narrow_eq rfl).or (narrow_eq rfl)
      have hmark' : Narrow fun c => c = 'b' || c = 'B' := (narrow_eq rfl).or (narrow_eq rfl)
      exact ⟨hmark mark hm, hmark' mark hm⟩
  next => trivial

private theorem number_utf8 (input : List Char) : number (utf8 input) =
    (number input).map utf8 utf8 := by
  by_cases hm : Unmarked input
  · rw [number_of_unmarked hm, number_of_unmarked (unmarked_utf8 hm), decimal_utf8]
  · obtain ⟨mark, rest, rfl, hmark⟩ := marks_of_not_unmarked hm
    have hnarrow : isWide mark = false := by rcases hmark with rfl | rfl | rfl | rfl <;> rfl
    have hcons (taken : List Char) : utf8 ('0' :: mark :: taken) = '0' :: mark :: utf8 taken := by
      rw [utf8_cons_narrow rfl, utf8_cons_narrow hnarrow]
    rw [hcons]
    rcases hmark with rfl | rfl | rfl | rfl <;>
      simp [number, radixTail_utf8 narrow_isHexDigit, radixTail_utf8 narrow_isBinaryDigit, hcons]

private theorem startsNumber_utf8 (c : Char) (input : List Char) :
    startsNumber (c :: utf8 input) = startsNumber (c :: input) := by
  rw [startsNumber, startsNumber, any_head?_utf8 narrow_isDigit]

/-! ## Comments and literals -/

/-- Bytes that are not ASCII characters belong to the comment. -/
theorem commentTail_wide {bs : List Char} (h : ∀ b ∈ bs, isWide b = true) (rest : List Char) :
    commentTail (bs ++ rest) = (commentTail rest).map fun (taken, rest) => (bs ++ taken, rest) := by
  induction bs with
  | nil => simp
  | cons b bs ih =>
    obtain ⟨hb, hbs⟩ := List.forall_mem_cons.mp h
    have hstar := ne_of_isWide (x := '*') hb rfl
    rw [List.cons_append, commentTail, ih hbs, Option.map_map]
    · rfl
    · intro tail hb'
      exact absurd hb' hstar

private theorem commentTail_utf8 (input : List Char) :
    commentTail (utf8 input) = (commentTail input).map (Prod.map utf8 utf8) := by
  fun_induction commentTail input with
  | case1 => rfl
  | case2 rest =>
    rw [utf8_cons_narrow rfl, utf8_cons_narrow rfl, commentTail]
    rfl
  | case3 c input hne ih =>
    cases hc : isWide c with
    | false =>
      rw [utf8_cons_narrow hc, commentTail, ih, Option.map_map, Option.map_map]
      · congr 1
        ext1 parts
        simp [utf8_cons_narrow hc]
      · intro tail hstar hslash
        obtain ⟨rest, rfl, -⟩ := exists_of_utf8_eq_cons rfl hslash
        exact hne rest hstar rfl
    | true =>
      rw [utf8_cons, commentTail_wide fun b hb => isWide_of_mem_utf8 hc hb, ih, Option.map_map,
        Option.map_map]
      congr 1
      ext1 parts
      exact congrArg (·, utf8 parts.2) (utf8_cons c parts.1).symm

private theorem quotedTail_cons {quote : Char} (hslash : c ≠ '\\') (hquote : c ≠ quote)
    (hline : c ≠ '\n')
    (rest : List Char) :
    quotedTail quote (c :: rest) = (quotedTail quote rest).map (c :: ·) id := by
  rw [quotedTail.eq_def]
  simp [hslash, hquote, hline, Prod.map]

private theorem quotedTail_escape {quote d : Char} (hd : d ≠ '\n') (rest : List Char) :
    quotedTail quote ('\\' :: d :: rest) =
      (quotedTail quote rest).map (fun taken => '\\' :: d :: taken) id := by
  rw [quotedTail.eq_def]
  simp [hd, Prod.map]

/-- Bytes that are not ASCII characters belong to the literal. -/
theorem quotedTail_wide {quote : Char} (hq : isWide quote = false) {bs : List Char}
    (h : ∀ b ∈ bs, isWide b = true) (rest : List Char) :
    quotedTail quote (bs ++ rest) = (quotedTail quote rest).map (bs ++ ·) id := by
  induction bs with
  | nil => rfl
  | cons b bs ih =>
    obtain ⟨hb, hbs⟩ := List.forall_mem_cons.mp h
    rw [List.cons_append, quotedTail_cons (ne_of_isWide hb rfl) (ne_of_isWide hb hq)
      (ne_of_isWide hb rfl), ih hbs]
    rfl

/-- A backslash keeps the first byte of the next character from being looked at, and the others are
not looked for. -/
theorem quotedTail_utf8 {quote : Char} (hq : isWide quote = false) (input : List Char) :
    quotedTail quote (utf8 input) = (quotedTail quote input).map utf8 (Option.map utf8) := by
  fun_induction quotedTail quote input with
  | case1 => rfl
  | case2 => rfl
  | case3 input =>
    rw [utf8_cons_narrow rfl, utf8_cons_narrow rfl, quotedTail.eq_def]
    rfl
  | case4 d input hd taken rest e ih =>
    rw [e] at ih
    rw [utf8_cons_narrow rfl]
    cases hwide : isWide d with
    | false =>
      rw [utf8_cons_narrow hwide, quotedTail_escape hd, ih]
      simp [utf8_cons_narrow (c := '\\') rfl, utf8_cons_narrow hwide]
    | true =>
      obtain ⟨b, bs, hu, hb, hbs⟩ := exists_utf8_cons hwide
      rw [hu, quotedTail_escape (ne_of_isWide hb rfl), quotedTail_wide hq hbs, ih]
      simp [utf8_cons_narrow (c := '\\') rfl, hu]
  | case5 input hslash =>
    rw [utf8_cons_narrow hq, quotedTail.eq_def]
    simp [hslash, utf8_narrow hq]
  | case6 input hslash hquote =>
    rw [utf8_cons_narrow rfl, quotedTail.eq_def]
    simp [hquote]
  | case7 c input hslash hquote hline taken rest e ih =>
    rw [e] at ih
    cases hwide : isWide c with
    | false =>
      rw [utf8_cons_narrow hwide, quotedTail_cons hslash hquote hline, ih]
      simp [utf8_cons_narrow hwide]
    | true =>
      rw [utf8_cons, quotedTail_wide hq fun b hb => isWide_of_mem_utf8 hwide hb, ih]
      exact congrArg (·, rest.map utf8) (utf8_cons c taken).symm

/-! ## Lexemes -/

/-- What a scan leaves, on bytes. -/
def Scan.utf8 : Scan → Scan
  | .lexeme kind text rest => .lexeme kind (Lexer.utf8 text) (Lexer.utf8 rest)
  | .fault cause text => .fault cause (Lexer.utf8 text)

private theorem scanQuoted_utf8 (literal : QuotedLiteral) {quote : Char} (hq : isWide quote = false)
    (input : List Char) :
    scanQuoted literal quote (utf8 input) = (scanQuoted literal quote input).utf8 := by
  rw [scanQuoted, scanQuoted, quotedTail_utf8 hq]
  rcases quotedTail quote input with ⟨taken, _ | rest⟩ <;>
    simp [Scan.utf8, utf8_cons_narrow hq]

private theorem scanComment?_eq_none (hline : ∀ rest, input ≠ '/' :: '/' :: rest)
    (hblock : ∀ rest, input ≠ '/' :: '*' :: rest) : scanComment? input = none := by
  unfold scanComment?
  split
  next => exact absurd rfl (hline _)
  next => exact absurd rfl (hblock _)
  next => rfl

private theorem uniform_ne_newline : Uniform (· != '\n') := by
  intro b c hb hc
  change (b != '\n') = (c != '\n')
  rw [bne_iff_ne.2 (ne_of_isWide hb rfl), bne_iff_ne.2 (ne_of_isWide hc rfl)]

/-- A comment is found among the bytes where it is found among the characters. -/
private theorem scanComment?_utf8 (input : List Char) :
    scanComment? (utf8 input) = (scanComment? input).map Scan.utf8 := by
  have hcons (x : Char) (hx : isWide x = false) (rest : List Char) :
      utf8 ('/' :: x :: rest) = '/' :: x :: utf8 rest := by
    rw [utf8_cons_narrow rfl, utf8_cons_narrow hx]
  by_cases hline : ∃ rest, input = '/' :: '/' :: rest
  · obtain ⟨rest, rfl⟩ := hline
    rw [hcons '/' rfl, scanComment?, scanComment?, run_utf8 uniform_ne_newline]
    simp [Scan.utf8, hcons '/' rfl]
  by_cases hblock : ∃ rest, input = '/' :: '*' :: rest
  · obtain ⟨rest, rfl⟩ := hblock
    rw [hcons '*' rfl, scanComment?, scanComment?, commentTail_utf8]
    cases commentTail rest <;> simp [Scan.utf8, hcons '*' rfl]
  · have hnone (x : Char) (hx : isWide x = false) (h : ¬ ∃ rest, input = '/' :: x :: rest)
        (tail : List Char) : utf8 input ≠ '/' :: x :: tail := by
      intro heq
      obtain ⟨rest, rfl, htail⟩ := exists_of_utf8_eq_cons rfl heq
      obtain ⟨rest, rfl, -⟩ := exists_of_utf8_eq_cons hx htail.symm
      exact h ⟨rest, rfl⟩
    rw [scanComment?_eq_none (hnone '/' rfl hline) (hnone '*' rfl hblock),
      scanComment?_eq_none (fun rest h => hline ⟨rest, h⟩) fun rest h => hblock ⟨rest, h⟩]
    rfl

private theorem isPrefixOf_utf8 {pattern : List Char} (h : ∀ x ∈ pattern, isWide x = false)
    (input : List Char) : pattern.isPrefixOf (utf8 input) = pattern.isPrefixOf input := by
  induction pattern generalizing input with
  | nil => simp
  | cons x pattern ih =>
    obtain ⟨hx, hpattern⟩ := List.forall_mem_cons.mp h
    cases input with
    | nil => rfl
    | cons c input =>
      cases hc : isWide c with
      | false =>
        rw [utf8_cons_narrow hc, List.isPrefixOf_cons_cons, List.isPrefixOf_cons_cons, ih hpattern]
      | true =>
        obtain ⟨b, bs, hu, hb, -⟩ := exists_utf8_cons hc
        rw [hu, List.isPrefixOf_cons_cons, List.isPrefixOf_cons_cons,
          beq_false_of_ne (ne_of_isWide hb hx).symm, beq_false_of_ne (ne_of_isWide hc hx).symm,
          Bool.false_and, Bool.false_and]

private theorem isWide_text (p : Punctuator) : ∀ x ∈ p.text.toList, isWide x = false := by
  apply isWide_of_isAscii
  cases p <;> decide

/-- A punctuator is found among the bytes where it is found among the characters. -/
private theorem scanPunctuator_utf8 (hc : isWide c = false) (input : List Char) :
    scanPunctuator c (utf8 input) = (scanPunctuator c input).utf8 := by
  have hfind (p : Punctuator) : p.text.toList.isPrefixOf (c :: utf8 input) =
      p.text.toList.isPrefixOf (c :: input) := by
    rw [← utf8_cons_narrow hc]
    exact isPrefixOf_utf8 (isWide_text p) _
  unfold scanPunctuator
  simp only [hfind]
  split
  next p hp =>
    have hpre := List.find?_some hp
    obtain ⟨rest, hrest⟩ := List.isPrefixOf_iff_prefix.1 hpre
    have hbytes : c :: utf8 input = p.text.toList ++ utf8 rest := by
      rw [← utf8_cons_narrow hc, ← hrest, utf8_narrow_append (isWide_text p)]
    have htext : utf8 p.text.toList = p.text.toList := by
      have happ := utf8_narrow_append (isWide_text p) []
      simpa using happ
    rw [Scan.utf8, hbytes, ← hrest, List.drop_left, List.drop_left, htext]
  next => rw [Scan.utf8, utf8_narrow hc]

/-- A lexeme that is no word is found on bytes where it is found on characters. -/
theorem scan_utf8 (hc : startsWord c = false) (input : List Char) :
    scan wide c (utf8 input) = (scan wide c input).utf8 := by
  obtain ⟨hstart, hnarrow⟩ := Bool.or_eq_false_iff.1 hc
  have hcomment : scanComment? (c :: utf8 input) = (scanComment? (c :: input)).map Scan.utf8 := by
    rw [← utf8_cons_narrow hnarrow, scanComment?_utf8]
  have hnumber : number (c :: utf8 input) = (number (c :: input)).map utf8 utf8 := by
    rw [← utf8_cons_narrow hnarrow, number_utf8]
  rw [scan, scan]
  split
  · rw [Scan.utf8, utf8_narrow hnarrow]
  rw [hcomment]
  cases scanComment? (c :: input) with
  | some comment => rfl
  | none =>
    rw [Option.map_none, show (isIdentifierStart c || isWide c) = false from hc,
      startsNumber_utf8]
    simp only [Bool.false_eq_true, if_false]
    split
    · rw [hnumber]
      rfl
    split
    next hq => exact scanQuoted_utf8 .character hnarrow input
    split
    next hq => exact scanQuoted_utf8 .string hnarrow input
    next => exact scanPunctuator_utf8 hnarrow input

end Lexer

end JavaFold
