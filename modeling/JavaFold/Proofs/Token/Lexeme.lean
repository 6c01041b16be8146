import Mathlib.Data.List.Basic
import JavaFold.Proofs.Grammar.Words

/-!
# Words that are cut out of a text again

A lexeme is cut out of a text without regard to what follows it, except for the next character: a
lexeme ends where it does because the next character does not go on with it. So a lexeme that was
cut out of one text is cut out of any other text in which it is followed by a character that does
not go on with it either. Main statement: `scan_of_lexeme`.
-/

namespace JavaFold.Lexer

variable {wide : Char → Bool} {input taken rest tail : List Char}

/-! ## Runs of characters -/

/-- The next character, if there is one, is not accepted. -/
def Stops (accept : Char → Bool) (tail : List Char) : Prop :=
  ∀ c ∈ tail.head?, accept c = false

/-- A text that goes on with a part of another one, or else stops. -/
theorem Stops.exchange {accept : Char → Bool} (part : List Char) (h : Stops accept (part ++ rest))
    (ht : Stops accept tail) : Stops accept (part ++ tail) := by
  cases part with
  | nil => exact ht
  | cons c part => exact h

/-- A text that is refused, before another one that is refused. -/
theorem Stops.append {accept : Char → Bool} {part : List Char} (h : Stops accept part)
    (ht : Stops accept tail) : Stops accept (part ++ tail) := by
  cases part with
  | nil => exact ht
  | cons c part => exact h

private theorem stops_dropWhile (accept : Char → Bool) (input : List Char) :
    Stops accept (input.dropWhile accept) := by
  intro c hc
  have := List.head?_dropWhile_not accept input
  rw [Option.mem_def.mp hc] at this
  simpa using this

/-- A run of accepted characters is taken as a whole before one that is not. -/
theorem run_append_stops {accept : Char → Bool} (h : ∀ c ∈ taken, accept c = true)
    (ht : Stops accept tail) : run accept (taken ++ tail) = (taken, tail) := by
  have hdrop : tail.dropWhile accept = tail := by
    cases tail with
    | nil => rfl
    | cons c tail => rw [List.dropWhile_cons_of_neg]; simp [ht c rfl]
  have htake : tail.takeWhile accept = [] := by
    cases tail with
    | nil => rfl
    | cons c tail => rw [List.takeWhile_cons_of_neg]; simp [ht c rfl]
  rw [run, List.takeWhile_append_of_pos h, List.dropWhile_append_of_pos h, hdrop, htake,
    List.append_nil]

private theorem run_again {accept : Char → Bool} (h : run accept input = (taken, rest))
    (ht : Stops accept tail) : run accept (taken ++ tail) = (taken, tail) := by
  refine run_append_stops (fun c hc => ?_) ht
  cases h
  exact List.all_eq_true.mp List.all_takeWhile c hc

/-- A run ends where no accepted character follows. -/
theorem run_stops {accept : Char → Bool} (h : run accept input = (taken, rest)) :
    Stops accept rest := by
  cases h
  exact stops_dropWhile accept input

/-! ## Numbers -/

/-- Whether a character can go on with a number. -/
def continuesNumber (c : Char) : Bool :=
  isIdentifierStart c || c.isDigit || c = '.'

/-- The characters that no number goes on with are refused by every part of a number. -/
theorem Stops.weaken {accept accept' : Char → Bool} (h : Stops accept tail)
    (himp : ∀ c, accept' c = true → accept c = true) : Stops accept' tail := by
  intro c hc
  have := h c hc
  have := himp c
  grind

/-- A run ends before a character that is not accepted. -/
theorem stops_cons {accept : Char → Bool} {c : Char} :
    Stops accept (c :: tail) ↔ accept c = false := by
  simp [Stops]

theorem stops_nil {accept : Char → Bool} : Stops accept [] := by
  simp [Stops]

private theorem option_again {accept : Char → Bool} (h : option accept input = (taken, rest))
    (ht : taken = [] → Stops accept tail) : option accept (taken ++ tail) = (taken, tail) := by
  have hstop : ∀ {tail : List Char}, Stops accept tail → option accept tail = ([], tail) := by
    intro tail ht
    cases tail with
    | nil => rfl
    | cons c tail => rw [option, if_neg (by simp [stops_cons.mp ht])]
  cases input with
  | nil =>
    cases h
    exact hstop (ht rfl)
  | cons c input =>
    rw [option] at h
    split at h
    next hc =>
      cases h
      rw [List.singleton_append, option, if_pos hc]
    next hc =>
      cases h
      exact hstop (ht rfl)

/-- The point before a text belongs to a number whatever the text, as long as it does not go on with
a letter or another point. -/
theorem pointContinues_of_stops (h : Stops continuesNumber tail) : pointContinues tail = true := by
  cases tail with
  | nil => rfl
  | cons c tail =>
    have hc := stops_cons.mp h
    simp only [continuesNumber, Bool.or_eq_false_iff, decide_eq_false_iff_not] at hc
    simp [pointContinues, hc]

/-- Without a point there is no fraction. -/
theorem fraction_of_head?_ne (h : input.head? ≠ some '.') : fraction input = ([], input) := by
  rw [fraction.eq_def]
  split
  · exact absurd rfl h
  · rfl

private theorem digits_again {isDigit : Char → Bool} (h : digits isDigit input = (taken, rest))
    (ht : Stops (fun c => isDigit c || c = '_') tail) :
    digits isDigit (taken ++ tail) = (taken, tail) :=
  run_again h ht

private theorem digits_stops {isDigit : Char → Bool} (h : digits isDigit input = (taken, rest)) :
    Stops (fun c => isDigit c || c = '_') rest :=
  run_stops h

private theorem isDigit_of_mem_digits {c : Char} (h : digits Char.isDigit input = (taken, rest))
    (hc : c ∈ taken) : (c.isDigit || c = '_') = true := by
  cases h
  exact List.all_eq_true.mp List.all_takeWhile c hc

/-- What a fraction is made of. -/
theorem fraction_cases (h : fraction input = (taken, rest)) :
    taken = [] ∧ input = rest ∨
      ∃ ds, taken = '.' :: ds ∧ pointContinues (ds ++ rest) = true ∧
        digits Char.isDigit (ds ++ rest) = (ds, rest) := by
  rw [fraction.eq_def] at h
  split at h
  next input =>
    split at h
    next hp =>
      obtain ⟨ds, rest', hd⟩ : ∃ ds rest', digits Char.isDigit input = (ds, rest') := ⟨_, _, rfl⟩
      have happ : ds ++ rest' = input := by rw [← digits_append Char.isDigit input, hd]
      rw [hd] at h
      cases h
      exact .inr ⟨ds, rfl, happ ▸ hp, happ ▸ hd⟩
    next hp =>
      cases h
      exact .inl ⟨rfl, rfl⟩
  next =>
    cases h
    exact .inl ⟨rfl, rfl⟩

private theorem fraction_again (h : fraction input = (taken, rest))
    (ht : Stops (fun c => c.isDigit || c = '_') tail)
    (hp : taken = ['.'] → pointContinues tail = true)
    (hnone : taken = [] → fraction tail = ([], tail)) :
    fraction (taken ++ tail) = (taken, tail) := by
  obtain ⟨rfl, -⟩ | ⟨ds, rfl, hpoint, hd⟩ := fraction_cases h
  · exact hnone rfl
  · have hpoint' : pointContinues (ds ++ tail) = true := by
      cases ds with
      | nil => exact hp rfl
      | cons c ds => exact hpoint
    rw [List.cons_append, fraction, if_pos hpoint', digits_again hd ht]

private theorem exponentDigits_again (h : exponentDigits input = some (taken, rest))
    (ht : Stops (fun c => c.isDigit || c = '_') tail) :
    ∃ c ds, taken = c :: ds ∧ c.isDigit = true ∧
      exponentDigits (taken ++ tail) = some (taken, tail) := by
  cases input with
  | nil => cases h
  | cons c input =>
    rw [exponentDigits] at h
    split at h
    next hc =>
      have hd := Option.some.inj h
      have happ := digits_append Char.isDigit (c :: input)
      have hne : taken ≠ [] := by
        intro hnil
        have := digits_stops hd
        rw [hd, hnil, List.nil_append] at happ
        rw [show rest = c :: input from happ, stops_cons] at this
        simp [hc] at this
      obtain ⟨d, ds, rfl⟩ := List.exists_cons_of_ne_nil hne
      rw [hd] at happ
      cases happ
      refine ⟨c, ds, rfl, hc, ?_⟩
      rw [List.cons_append, exponentDigits, if_pos hc, ← List.cons_append, digits_again hd ht]
    next => cases h

/-- An exponent is taken again as a whole before what does not go on with it. -/
private theorem exponent_again (h : exponent input = (taken, rest))
    (ht : Stops (fun c => c.isDigit || c = '_') tail)
    (he : Stops (fun c => c = 'e' || c = 'E') tail) : exponent (taken ++ tail) = (taken, tail) := by
  have hnone : exponent tail = ([], tail) := by
    cases tail with
    | nil => rfl
    | cons c tail => rw [exponent, if_neg (by simp [stops_cons.mp he])]
  cases input with
  | nil =>
    cases h
    exact hnone
  | cons c input =>
    rw [exponent] at h
    split at h
    next hc =>
      obtain ⟨sign, rest', hs⟩ :
          ∃ sign rest', option (fun s => s = '+' || s = '-') input = (sign, rest') := ⟨_, _, rfl⟩
      rw [hs] at h
      cases hd : exponentDigits rest' with
      | none =>
        simp only [hd] at h
        cases h
        exact hnone
      | some parts =>
        obtain ⟨ds, rest''⟩ := parts
        simp only [hd] at h
        cases h
        obtain ⟨d, ds', rfl, hdigit, hagain⟩ := exponentDigits_again hd ht
        have hsign : Stops (fun s => s = '+' || s = '-') (d :: ds' ++ tail) := by
          have h1 : d ≠ '+' := by rintro rfl; cases hdigit
          have h2 : d ≠ '-' := by rintro rfl; cases hdigit
          rw [List.cons_append, stops_cons]
          simp [h1, h2]
        have hshape : c :: sign ++ d :: ds' ++ tail = c :: (sign ++ (d :: ds' ++ tail)) := by
          simp
        rw [hshape, exponent, if_pos hc, option_again hs fun _ => hsign]
        simp only [hagain]
    next hc =>
      cases h
      exact hnone

private theorem exponent_head? (input : List Char) :
    ∀ c ∈ (exponent input).1.head?, c = 'e' ∨ c = 'E' := by
  intro c hc
  cases input with
  | nil => cases hc
  | cons d input =>
    rw [exponent] at hc
    split at hc
    next hd =>
      cases hx : exponentDigits (option (fun s => s = '+' || s = '-') input).2 with
      | none => simp [hx] at hc
      | some parts =>
        simp only [hx] at hc
        cases hc
        simpa using hd
    next => cases hc

private theorem option_members (accept : Char → Bool) (input : List Char) :
    ∀ c ∈ (option accept input).1, accept c = true := by
  intro c hc
  cases input with
  | nil => cases hc
  | cons d input =>
    rw [option] at hc
    split at hc
    next hd =>
      cases List.mem_singleton.1 hc
      exact hd
    next => cases hc

/-- An exponent is made of its mark, a sign, digits and underscores. -/
private theorem exponent_members (input : List Char) :
    ∀ c ∈ (exponent input).1, "eE+-_".toList.contains c = true ∨ c.isDigit = true := by
  intro c hc
  cases input with
  | nil => cases hc
  | cons d input =>
    rw [exponent] at hc
    split at hc
    next hd =>
      obtain ⟨sign, rest, hs⟩ :
          ∃ sign rest, option (fun s => s = '+' || s = '-') input = (sign, rest) := ⟨_, _, rfl⟩
      have hsign := option_members (fun s => s = '+' || s = '-') input
      rw [hs] at hc hsign
      cases hx : exponentDigits rest with
      | none => simp [hx] at hc
      | some parts =>
        simp only [hx, List.cons_append, List.mem_cons, List.mem_append] at hc
        rcases hc with rfl | hc | hc
        · simp only [Bool.or_eq_true, decide_eq_true_eq] at hd
          rcases hd with rfl | rfl <;> decide
        · have hc := hsign c hc
          simp only [Bool.or_eq_true, decide_eq_true_eq] at hc
          rcases hc with rfl | rfl <;> decide
        · cases rest with
          | nil => cases hx
          | cons d rest =>
            rw [exponentDigits] at hx
            split at hx
            · cases hx
              have hd : (c.isDigit || c = '_') = true := isDigit_of_mem_digits rfl hc
              simp only [Bool.or_eq_true, decide_eq_true_eq] at hd
              rcases hd with hd | rfl
              · exact .inr hd
              · exact .inl rfl
            · cases hx
    next => cases hc

/-- The suffix of a number is one of these letters. -/
theorem isSuffix_cases {c : Char} (h : "lLfFdD".toList.contains c = true) :
    c = 'l' ∨ c = 'L' ∨ c = 'f' ∨ c = 'F' ∨ c = 'd' ∨ c = 'D' := by
  simpa using h

private theorem isSuffix_facts {c : Char} (h : "lLfFdD".toList.contains c = true) :
    (c.isDigit || c = '_') = false ∧ (c = 'e' || c = 'E') = false := by
  rcases isSuffix_cases h with rfl | rfl | rfl | rfl | rfl | rfl <;> decide

/-- The letters of a number, marks of a radix apart. -/
theorem isNumberLetter_facts {c : Char} (h : "eElLfFdD".toList.contains c = true) :
    (c.isDigit || c = '_') = false ∧ c ≠ '.' := by
  have hcases : c = 'e' ∨ c = 'E' ∨ c = 'l' ∨ c = 'L' ∨ c = 'f' ∨ c = 'F' ∨ c = 'd' ∨ c = 'D' := by
    simpa using h
  rcases hcases with rfl | rfl | rfl | rfl | rfl | rfl | rfl | rfl <;> decide

/-- The parts of a number without a radix mark, each cut out of what follows the one before. -/
theorem decimal_parts (h : decimal input = (taken, rest)) :
    ∃ whole part power suffix r1 r2 r3, taken = whole ++ (part ++ (power ++ suffix)) ∧
      digits Char.isDigit input = (whole, r1) ∧ fraction r1 = (part, r2) ∧
      exponent r2 = (power, r3) ∧ option ("lLfFdD".toList.contains ·) r3 = (suffix, rest) := by
  cases h
  exact ⟨_, _, _, _, _, _, _, by simp, rfl, rfl, rfl, rfl⟩

section DecimalParts

variable {whole part power suffix r1 r2 r3 : List Char}

private theorem isNumberLetter_of_head? (h3 : exponent r2 = (power, r3))
    (h4 : option ("lLfFdD".toList.contains ·) r3 = (suffix, rest)) :
    ∀ c ∈ (power ++ suffix).head?, "eElLfFdD".toList.contains c = true := by
  intro c hc
  have hpower := exponent_head? r2
  have hsuffix := option_members ("lLfFdD".toList.contains ·) r3
  rw [h3] at hpower
  rw [h4] at hsuffix
  cases power with
  | nil =>
    rcases isSuffix_cases (hsuffix c (List.mem_of_head? hc)) with
      rfl | rfl | rfl | rfl | rfl | rfl <;> decide
  | cons d power => rcases hpower c hc with rfl | rfl <;> decide

private theorem point_not_mem (h3 : exponent r2 = (power, r3))
    (h4 : option ("lLfFdD".toList.contains ·) r3 = (suffix, rest)) : '.' ∉ power ++ suffix := by
  have hpower := exponent_members r2
  have hsuffix := option_members ("lLfFdD".toList.contains ·) r3
  rw [h3] at hpower
  rw [h4] at hsuffix
  rw [List.mem_append, not_or]
  exact ⟨fun hm => by cases hpower _ hm <;> contradiction, fun hm => by cases hsuffix _ hm⟩

/-- A number ends with a point only if nothing follows the point of its fraction. -/
theorem part_eq_of_getLast? {letters : List Char} (h1 : digits Char.isDigit input = (whole, r1))
    (h2 : fraction r1 = (part, r2)) (hl : '.' ∉ letters)
    (h : (whole ++ (part ++ letters)).getLast? = some '.') : part = ['.'] ∧ letters = [] := by
  have hdigits {ds input rest : List Char} (hd : digits Char.isDigit input = (ds, rest)) :
      '.' ∉ ds := fun hm => by cases isDigit_of_mem_digits hd hm
  have hletters : letters = [] := by
    cases letters with
    | nil => rfl
    | cons c letters =>
      rw [← List.append_assoc, List.getLast?_append_cons] at h
      exact absurd (List.mem_of_getLast? h) hl
  subst hletters
  rw [List.append_nil] at h
  obtain ⟨rfl, -⟩ | ⟨ds, rfl, -, hd⟩ := fraction_cases h2
  · rw [List.append_nil] at h
    exact absurd (List.mem_of_getLast? h) (hdigits h1)
  · cases ds with
    | nil => exact ⟨rfl, rfl⟩
    | cons c ds =>
      rw [List.append_cons, List.getLast?_append_cons] at h
      exact absurd (List.mem_of_getLast? h) (hdigits hd)

/-- A number is made of digits only if it has no other part. -/
theorem parts_eq_nil_of_digits {letters : List Char} (h2 : fraction r1 = (part, r2))
    (hl : ∀ c ∈ letters.head?, "eElLfFdD".toList.contains c = true)
    (h : ∀ c ∈ whole ++ (part ++ letters), (c.isDigit || c = '_') = true) :
    part = [] ∧ letters = [] := by
  constructor
  · obtain ⟨rfl, -⟩ | ⟨ds, rfl, -⟩ := fraction_cases h2
    · rfl
    · cases h '.' (by simp)
  · cases letters with
    | nil => rfl
    | cons c letters =>
      have hc := h c (by simp)
      rw [(isNumberLetter_facts (hl c rfl)).1] at hc
      cases hc

end DecimalParts

/-- Whether a character other than a point can go on with a number. -/
def isNumberPart (c : Char) : Bool :=
  isIdentifierStart c || c.isDigit

/-- A text does not go on with a number that stands before it: it starts with no letter and no
digit, and a point at the seam does not join them. -/
structure EndsNumber (taken tail : List Char) : Prop where
  part : Stops isNumberPart tail
  point : taken.getLast? = some '.' → pointContinues tail = true
  whole : (∀ c ∈ taken, (c.isDigit || c = '_') = true) → fraction tail = ([], tail)

private theorem EndsNumber.of_stops (h : Stops continuesNumber tail) : EndsNumber taken tail where
  part := h.weaken fun c hc => by
    simp [continuesNumber, show isIdentifierStart c || c.isDigit from hc]
  point := fun _ => pointContinues_of_stops h
  whole := fun _ => fraction_of_head?_ne fun hc => by cases h '.' hc

section

variable {front : List Char} (h : EndsNumber front tail)

include h

private theorem EndsNumber.stops_digits : Stops (fun c => c.isDigit || c = '_') tail :=
  h.part.weaken fun c hc => by
    simp only [Bool.or_eq_true, decide_eq_true_eq] at hc
    rcases hc with hc | rfl
    · simp [isNumberPart, hc]
    · rfl

private theorem EndsNumber.stops_mark : Stops (fun c => c = 'e' || c = 'E') tail :=
  h.part.weaken fun c hc => by
    simp only [Bool.or_eq_true, decide_eq_true_eq] at hc
    rcases hc with rfl | rfl <;> rfl

private theorem EndsNumber.stops_suffix : Stops ("lLfFdD".toList.contains ·) tail :=
  h.part.weaken fun c hc => by
    rcases isSuffix_cases hc with rfl | rfl | rfl | rfl | rfl | rfl <;> rfl

private theorem EndsNumber.stops_radix {isDigit : Char → Bool}
    (hdigit : ∀ c, isDigit c = true → isNumberPart c = true) :
    Stops (fun c => isDigit c || c = '_') tail ∧ Stops (fun c => c = 'l' || c = 'L') tail := by
  refine ⟨h.part.weaken fun c hc => ?_, h.part.weaken fun c hc => ?_⟩
  · simp only [Bool.or_eq_true, decide_eq_true_eq] at hc
    rcases hc with hc | rfl
    · exact hdigit c hc
    · rfl
  · simp only [Bool.or_eq_true, decide_eq_true_eq] at hc
    rcases hc with rfl | rfl <;> rfl

end

/-- A decimal number is taken again as a whole before what ends it. -/
private theorem decimal_again (h : decimal input = (taken, rest)) (ht : EndsNumber taken tail) :
    decimal (taken ++ tail) = (taken, tail) := by
  obtain ⟨whole, part, power, suffix, r1, r2, r3, rfl, h1, h2, h3, h4⟩ := decimal_parts h
  have a2 : part ++ r2 = r1 := by rw [← fraction_append r1, h2]
  have a3 : power ++ r3 = r2 := by rw [← exponent_append r2, h3]
  have a4 : suffix ++ rest = r3 := by rw [← option_append ("lLfFdD".toList.contains ·) r3, h4]
  have hletters := isNumberLetter_of_head? h3 h4
  have hsuffix := option_members ("lLfFdD".toList.contains ·) r3
  rw [h4] at hsuffix
  have hdigits := ht.stops_digits
  -- each part is followed by the parts after it, and these by `tail` in place of `rest`
  have hwhole : Stops (fun c => c.isDigit || c = '_') (part ++ (power ++ suffix) ++ tail) := by
    have hstops : Stops (fun c => c.isDigit || c = '_') (part ++ (power ++ suffix) ++ rest) := by
      simpa [← a2, ← a3, ← a4] using digits_stops h1
    exact hstops.exchange _ hdigits
  have hpart : Stops (fun c => c.isDigit || c = '_') (power ++ suffix ++ tail) :=
    Stops.append (fun c hc => (isNumberLetter_facts (hletters c hc)).1) hdigits
  have hpoint : part = ['.'] → pointContinues (power ++ suffix ++ tail) = true := by
    rintro rfl
    cases hls : power ++ suffix with
    | nil => exact ht.point (by simp [hls])
    | cons c letters =>
      obtain ⟨hnil, -⟩ | ⟨ds, hds, hp, -⟩ := fraction_cases h2
      · cases hnil
      · cases hds
        rw [List.nil_append, ← a3, ← a4, ← List.append_assoc, hls] at hp
        exact hp
  have hnone : part = [] → fraction (power ++ suffix ++ tail) = ([], power ++ suffix ++ tail) := by
    rintro rfl
    cases hls : power ++ suffix with
    | nil =>
      refine ht.whole fun c hc => ?_
      rw [List.nil_append, hls, List.append_nil] at hc
      exact isDigit_of_mem_digits h1 hc
    | cons c letters =>
      rw [hls] at hletters
      refine fraction_of_head?_ne fun hc => ?_
      cases hc
      exact (isNumberLetter_facts (hletters '.' rfl)).2 rfl
  have hpower : Stops (fun c => c.isDigit || c = '_') (suffix ++ tail) :=
    Stops.append (fun c hc => (isSuffix_facts (hsuffix c (List.mem_of_head? hc))).1) hdigits
  have hmark : Stops (fun c => c = 'e' || c = 'E') (suffix ++ tail) :=
    Stops.append (fun c hc => (isSuffix_facts (hsuffix c (List.mem_of_head? hc))).2) ht.stops_mark
  have hshape : whole ++ (part ++ (power ++ suffix)) ++ tail =
      whole ++ (part ++ (power ++ suffix) ++ tail) := List.append_assoc ..
  have hfraction := fraction_again h2 hpart hpoint hnone
  have hexponent := exponent_again h3 hpower hmark
  rw [← List.append_assoc] at hfraction hexponent
  rw [hshape, decimal, digits_again h1 hwhole]
  simp only [hfraction, hexponent, option_again h4 fun _ => ht.stops_suffix]
  rw [List.append_assoc, List.append_assoc]

/-- What follows a number without a radix mark does not go on with it. -/
theorem decimal_ends (h : decimal input = (taken, rest)) (hr : Stops isNumberPart rest) :
    EndsNumber taken rest := by
  obtain ⟨whole, part, power, suffix, r1, r2, r3, rfl, h1, h2, h3, h4⟩ := decimal_parts h
  have a3 : power ++ r3 = r2 := by rw [← exponent_append r2, h3]
  have a4 : suffix ++ rest = r3 := by rw [← option_append ("lLfFdD".toList.contains ·) r3, h4]
  have hrest (hls : power ++ suffix = []) : r2 = rest := by
    rw [← a3, ← a4, ← List.append_assoc, hls, List.nil_append]
  refine ⟨hr, fun hlast => ?_, fun hdigits => ?_⟩
  · obtain ⟨rfl, hls⟩ := part_eq_of_getLast? h1 h2 (point_not_mem h3 h4) hlast
    obtain ⟨hnil, -⟩ | ⟨ds, hds, hp, -⟩ := fraction_cases h2
    · cases hnil
    · cases hds
      rwa [List.nil_append, hrest hls] at hp
  · obtain ⟨rfl, hls⟩ := parts_eq_nil_of_digits h2 (isNumberLetter_of_head? h3 h4) hdigits
    obtain ⟨-, rfl⟩ | ⟨ds, hds, -⟩ := fraction_cases h2
    · rwa [hrest hls] at h2
    · cases hds

private theorem radixTail_again {isDigit : Char → Bool}
    (h : radixTail isDigit input = (taken, rest))
    (ht : Stops (fun c => isDigit c || c = '_') tail)
    (hs : Stops (fun c => c = 'l' || c = 'L') tail) :
    radixTail isDigit (taken ++ tail) = (taken, tail) := by
  obtain ⟨ds, r1, h1⟩ : ∃ ds r1, digits isDigit input = (ds, r1) := ⟨_, _, rfl⟩
  obtain ⟨suffix, r2, h2⟩ :
      ∃ suffix r2, option (fun c => c = 'l' || c = 'L') r1 = (suffix, r2) := ⟨_, _, rfl⟩
  simp only [radixTail, h1, h2] at h
  cases h
  have a2 : suffix ++ rest = r1 := by rw [← option_append (fun c => c = 'l' || c = 'L') r1, h2]
  have hstop : Stops (fun c => isDigit c || c = '_') (suffix ++ rest) := a2 ▸ digits_stops h1
  rw [List.append_assoc, radixTail, digits_again h1 (hstop.exchange _ ht)]
  simp only [option_again h2 fun _ => hs]

private theorem isNumberPart_of_isHexDigit (c : Char) (h : isHexDigit c = true) :
    isNumberPart c = true := by
  simp only [isHexDigit, Bool.or_eq_true, Bool.and_eq_true, decide_eq_true_eq] at h
  rcases h with (h | ⟨hl, hu⟩) | ⟨hl, hu⟩
  · simp [isNumberPart, h]
  · have hz : c.val ≤ 'z'.val := UInt32.le_trans hu (by decide)
    have hlower : c.isLower = true :=
      Bool.and_eq_true_iff.2 ⟨decide_eq_true hl, decide_eq_true hz⟩
    have halpha : c.isAlpha = true := Bool.or_eq_true_iff.2 (.inr hlower)
    simp [isNumberPart, isIdentifierStart, halpha]
  · have hz : c.val ≤ 'Z'.val := UInt32.le_trans hu (by decide)
    have hupper : c.isUpper = true := decide_eq_true ⟨hl, hz⟩
    have halpha : c.isAlpha = true := Bool.or_eq_true_iff.2 (.inl hupper)
    simp [isNumberPart, isIdentifierStart, halpha]

private theorem isNumberPart_of_isBinaryDigit (c : Char) (h : isBinaryDigit c = true) :
    isNumberPart c = true := by
  simp only [isBinaryDigit, Bool.or_eq_true, decide_eq_true_eq] at h
  rcases h with rfl | rfl <;> rfl

private theorem isNumberPart_of_mem_radixTail {isDigit : Char → Bool} {c : Char}
    (hdigit : ∀ c, isDigit c = true → isNumberPart c = true)
    (hc : c ∈ (radixTail isDigit input).1) : isNumberPart c = true := by
  rcases List.mem_append.1 hc with hc | hc
  · have hd : (isDigit c || c = '_') = true := List.all_eq_true.mp List.all_takeWhile c hc
    simp only [Bool.or_eq_true, decide_eq_true_eq] at hd
    rcases hd with hd | rfl
    · exact hdigit c hd
    · rfl
  · have hs := option_members _ _ c hc
    simp only [Bool.or_eq_true, decide_eq_true_eq] at hs
    rcases hs with rfl | rfl <;> rfl

/-- A text does not start with a radix mark. -/
def Unmarked : List Char → Prop
  | '0' :: mark :: _ => (mark = 'x' || mark = 'X') = false ∧ (mark = 'b' || mark = 'B') = false
  | _ => True

/-- A number with a radix mark starts with a zero and one of the four marks. -/
theorem marks_of_not_unmarked (h : ¬ Unmarked input) :
    ∃ mark rest, input = '0' :: mark :: rest ∧
      (mark = 'x' ∨ mark = 'X' ∨ mark = 'b' ∨ mark = 'B') := by
  unfold Unmarked at h
  split at h
  next mark rest =>
    refine ⟨mark, rest, rfl, ?_⟩
    simp only [Bool.or_eq_false_iff, decide_eq_false_iff_not] at h
    grind
  next => exact absurd trivial h

/-- After a radix mark a number goes on with digits of its own. -/
theorem exists_radix (h : ¬ Unmarked input) :
    ∃ mark rest isDigit, input = '0' :: mark :: rest ∧ isNumberPart mark = true ∧
      (mark.isDigit || mark = '_') = false ∧ (∀ c, isDigit c = true → isNumberPart c = true) ∧
      ∀ input, number ('0' :: mark :: input) =
        ('0' :: mark :: (radixTail isDigit input).1, (radixTail isDigit input).2) := by
  obtain ⟨mark, rest, rfl, hmark⟩ := marks_of_not_unmarked h
  rcases hmark with rfl | rfl | rfl | rfl
  · exact ⟨_, _, isHexDigit, rfl, rfl, by decide, isNumberPart_of_isHexDigit, fun _ => rfl⟩
  · exact ⟨_, _, isHexDigit, rfl, rfl, by decide, isNumberPart_of_isHexDigit, fun _ => rfl⟩
  · exact ⟨_, _, isBinaryDigit, rfl, rfl, by decide, isNumberPart_of_isBinaryDigit, fun _ => rfl⟩
  · exact ⟨_, _, isBinaryDigit, rfl, rfl, by decide, isNumberPart_of_isBinaryDigit, fun _ => rfl⟩

/-- A number without a radix mark is decimal. -/
theorem number_of_unmarked (h : Unmarked input) : number input = decimal input := by
  unfold number
  split
  next mark rest =>
    obtain ⟨hx, hb⟩ := h
    rw [hx, hb]
    rfl
  next => rfl

/-- A number that has no radix mark has none before another end. -/
private theorem Unmarked.exchange (h : Unmarked (taken ++ rest)) (ht : Stops isNumberPart tail) :
    Unmarked (taken ++ tail) := by
  match taken with
  | [] =>
    rw [List.nil_append, Unmarked.eq_def]
    split
    next mark rest => cases stops_cons.mp ht
    next => trivial
  | [c] =>
    rw [List.singleton_append, Unmarked.eq_def]
    split
    next mark rest heq =>
      cases heq
      constructor <;> refine Bool.eq_false_iff.mpr fun hm => ?_
      all_goals
        simp only [Bool.or_eq_true, decide_eq_true_eq] at hm
        rcases hm with rfl | rfl <;> cases stops_cons.mp ht
    next => trivial
  | c :: d :: taken =>
    rw [List.cons_append, List.cons_append] at h ⊢
    rw [Unmarked.eq_def] at h ⊢
    split
    next mark rest heq =>
      cases heq
      exact h
    next => trivial

/-- A number that was cut out of a text is cut out of any other one in which nothing follows that
goes on with it. -/
theorem number_again (h : number input = (taken, rest)) (ht : EndsNumber taken tail) :
    number (taken ++ tail) = (taken, tail) := by
  by_cases hun : Unmarked input
  · rw [number_of_unmarked hun] at h
    have happ : taken ++ rest = input := by rw [← decimal_append input, h]
    rw [← happ] at hun
    rw [number_of_unmarked (hun.exchange ht.part), decimal_again h ht]
  · obtain ⟨mark, input, isDigit, rfl, -, -, hdigit, hnumber⟩ := exists_radix hun
    rw [hnumber] at h
    obtain ⟨ds, r1, h1⟩ : ∃ ds r1, radixTail isDigit input = (ds, r1) := ⟨_, _, rfl⟩
    rw [h1] at h
    cases h
    obtain ⟨hd, hs⟩ := ht.stops_radix hdigit
    rw [List.cons_append, List.cons_append, hnumber, radixTail_again h1 hd hs]

/-- A point that follows a number does not go on with it. -/
theorem number_ends (h : number input = (taken, rest)) (hr : Stops isNumberPart rest) :
    EndsNumber taken rest := by
  by_cases hun : Unmarked input
  · rw [number_of_unmarked hun] at h
    exact decimal_ends h hr
  · obtain ⟨mark, input, isDigit, rfl, hletter, hmark, hdigit, hnumber⟩ := exists_radix hun
    rw [hnumber] at h
    cases h
    refine ⟨hr, fun hlast => ?_, fun hdigits => ?_⟩
    · have hmem := List.mem_of_getLast? hlast
      rw [List.mem_cons, List.mem_cons] at hmem
      rcases hmem with hzero | rfl | hmem
      · cases hzero
      · cases hletter
      · cases isNumberPart_of_mem_radixTail hdigit hmem
    · have hm := hdigits mark (List.mem_cons_of_mem _ List.mem_cons_self)
      rw [hmark] at hm
      cases hm

/-- What starts a number still starts one, whatever follows the number. -/
theorem startsNumber_again (hs : startsNumber input = true) (h : number input = (taken, rest)) :
    startsNumber (taken ++ tail) = true := by
  have happ := number_append input
  have hne := number_ne_nil hs
  rw [h] at happ hne
  obtain ⟨c, taken, rfl⟩ := List.exists_cons_of_ne_nil hne
  rw [← happ] at hs h
  simp only [List.cons_append, startsNumber, Bool.or_eq_true, Bool.and_eq_true,
    decide_eq_true_eq] at hs ⊢
  rcases hs with hc | ⟨rfl, hd⟩
  · exact .inl hc
  · refine .inr ⟨rfl, ?_⟩
    cases taken with
    | cons d taken => exact hd
    | nil =>
      -- a number cannot be a point alone, since a digit follows
      rw [List.nil_append] at hd
      cases rest with
      | nil => cases hd
      | cons d rest =>
        have hd : d.isDigit = true := hd
        have hp : pointContinues (d :: rest) = true := by simp [pointContinues, hd]
        have hw : digits Char.isDigit ('.' :: d :: rest) = ([], '.' :: d :: rest) := by
          simp [digits, run, Char.isDigit]
        have hds : digits Char.isDigit (d :: rest) =
            (d :: (digits Char.isDigit rest).1, (digits Char.isDigit rest).2) := by
          simp [digits, run, hd]
        have hun : Unmarked ('.' :: d :: rest) := trivial
        have hlength := congrArg (fun parts => parts.1.length) h
        rw [List.singleton_append, number_of_unmarked hun] at hlength
        simp [decimal, hw, fraction, hp, hds] at hlength

/-! ## Quoted literals -/

private theorem quotedTail_again {quote : Char} (h : quotedTail quote input = (taken, some rest)) :
    quotedTail quote (taken ++ tail) = (taken, some tail) := by
  fun_induction quotedTail quote input generalizing taken rest with
  | case1 => cases h
  | case2 => cases h
  | case3 => cases h
  | case4 d input hd taken' rest' e ih =>
    cases h
    simp [quotedTail, hd, ih e]
  | case5 input hslash =>
    cases h
    rw [List.singleton_append, quotedTail.eq_def]
    simp [hslash]
  | case6 => cases h
  | case7 c input hslash hquote hline taken' rest' e ih =>
    cases h
    rw [List.cons_append, quotedTail.eq_def]
    simp [hslash, hquote, hline, ih e]

/-! ## Punctuators -/

/-- The characters with which some punctuator goes on after another one. -/
def followers (p : Punctuator) : List Char :=
  Punctuator.byLength.filterMap fun q =>
    if p.text.toList.isPrefixOf q.text.toList then q.text.toList[p.text.toList.length]? else none

private theorem mem_followers {p q : Punctuator} {c : Char} (hq : q ∈ Punctuator.byLength)
    (h : p.text.toList ++ [c] <+: q.text.toList) : c ∈ followers p := by
  refine List.mem_filterMap.mpr ⟨q, hq, ?_⟩
  obtain ⟨cs, hcs⟩ := h
  rw [← hcs, List.append_assoc]
  rw [if_pos (List.isPrefixOf_iff_prefix.mpr (List.prefix_append _ _))]
  simp

private theorem find?_punctuator (p : Punctuator) :
    (Punctuator.byLength.find? fun q => q.text.toList.isPrefixOf p.text.toList) = some p := by
  cases p <;> decide

private theorem prefix_append_cases {xs ys zs : List Char} (h : xs <+: ys ++ zs) :
    xs <+: ys ∨ ∃ c ∈ zs.head?, ys ++ [c] <+: xs := by
  obtain ⟨ws, hws⟩ := h
  rcases List.append_eq_append_iff.mp hws with ⟨as, rfl, rfl⟩ | ⟨as, rfl, rfl⟩
  · exact .inl (List.prefix_append _ _)
  · cases as with
    | nil => exact .inl (by simp)
    | cons c as => exact .inr ⟨c, rfl, ⟨as, by simp⟩⟩

/-- The longest punctuator is taken where no punctuator goes on. -/
theorem find?_punctuator_append {p : Punctuator}
    (h : ∀ c ∈ tail.head?, c ∉ followers p) :
    (Punctuator.byLength.find? fun q => q.text.toList.isPrefixOf (p.text.toList ++ tail)) =
      some p := by
  obtain ⟨-, as, bs, hsplit, hbefore⟩ := List.find?_eq_some_iff_append.mp (find?_punctuator p)
  refine List.find?_eq_some_iff_append.mpr ⟨?_, as, bs, hsplit, fun q hq => ?_⟩
  · exact List.isPrefixOf_iff_prefix.mpr (List.prefix_append _ _)
  · have hnot := hbefore q hq
    simp only [Bool.not_eq_true', Bool.eq_false_iff, ne_eq, List.isPrefixOf_iff_prefix] at hnot ⊢
    intro hpre
    rcases prefix_append_cases hpre with hpre | ⟨c, hc, hpre⟩
    · exact hnot hpre
    · refine h c hc (mem_followers ?_ hpre)
      rw [hsplit]
      exact List.mem_append_left _ hq

/-! ## Words -/

/-- Whether an identifier or a reserved word can start with a character. -/
def startsWord (c : Char) : Bool :=
  isIdentifierStart c || isWide c

/-- The characters of an identifier or a reserved word. -/
structure IsIdentifier (wide : Char → Bool) (text : List Char) : Prop where
  start : ∃ c cs, text = c :: cs ∧ startsWord c = true
  parts : ∀ c ∈ text, isIdentifierPart wide c = true

/-- A word as it can be cut out of a text. -/
def Lexeme (wide : Char → Bool) : Word → Prop
  | .identifier text => IsIdentifier wide text.toList ∧ Keyword.ofText? text = none
  | .keyword _ => True
  | .number text => startsNumber text.toList = true ∧ number text.toList = (text.toList, [])
  | .character text =>
    ∃ taken, text.toList = '\'' :: taken ∧ quotedTail '\'' taken = (taken, some [])
  | .string text => ∃ taken, text.toList = '"' :: taken ∧ quotedTail '"' taken = (taken, some [])
  | .punctuator _ => True

/-- A word is not gone on with by a character. -/
def EndsBefore (wide : Char → Bool) : Word → Char → Prop
  | .identifier _, c | .keyword _, c => isIdentifierPart wide c = false
  | .number _, c => continuesNumber c = false
  | .character _, _ | .string _, _ => True
  | .punctuator p, c =>
    c ∉ followers p ∧ (p = .dot → c.isDigit = false) ∧ (p = .slash → c ≠ '/' ∧ c ≠ '*')

/-- A keyword has the form of an identifier, so it is told by its text. -/
theorem isIdentifier_keyword (k : Keyword) : IsIdentifier wide k.text.toList := by
  constructor
  · cases k with
    | modifier m => cases m <;> exact ⟨_, _, rfl, rfl⟩
    | primitive p => cases p <;> exact ⟨_, _, rfl, rfl⟩
    | _ => exact ⟨_, _, rfl, rfl⟩
  · have hascii : (k.text.toList.all fun c => !isWide c && isIdentifierStart c) = true := by
      cases k with
      | modifier m => cases m <;> decide
      | primitive p => cases p <;> decide
      | _ => decide
    intro c hc
    obtain ⟨h1, h2⟩ : isWide c = false ∧ isIdentifierStart c = true := by
      simpa using List.all_eq_true.1 hascii c hc
    simp [isIdentifierPart, h1, h2]

private theorem keyword_ofText?_text (k : Keyword) : Keyword.ofText? k.text = some k := by
  cases k with
  | modifier m => cases m <;> decide
  | primitive p => cases p <;> decide
  | _ => decide

/-- A comment starts with a slash. -/
theorem scanComment?_of_ne {c : Char} (h : c ≠ '/') (rest : List Char) :
    scanComment? (c :: rest) = none := by
  unfold scanComment?
  split
  next heq => exact absurd (List.cons.inj heq).1 h
  next heq => exact absurd (List.cons.inj heq).1 h
  next => rfl

/-- What starts a word is no blank, no slash, no digit and no point. -/
theorem startsWord_facts {c : Char} (h : startsWord c = true) :
    isBlank c = false ∧ c ≠ '/' ∧ c.isDigit = false ∧ c ≠ '.' := by
  refine ⟨Bool.eq_false_iff.mpr fun hb => ?_, ?_, Bool.eq_false_iff.mpr fun hd => ?_, ?_⟩
  · simp only [isBlank, Bool.or_eq_true, decide_eq_true_eq] at hb
    rcases hb with (((rfl | rfl) | rfl) | rfl) | rfl <;> cases h
  · rintro rfl
    cases h
  · have hlo : 48 ≤ c.val.toNat ∧ c.val.toNat ≤ 57 := by
      simpa [Char.isDigit, UInt32.le_iff_toNat_le] using hd
    simp only [startsWord, isIdentifierStart, isWide, Bool.or_eq_true, decide_eq_true_eq] at h
    rcases h with ((h | rfl) | rfl) | h
    · rcases Bool.or_eq_true_iff.1 (show (c.isUpper || c.isLower) = true from h) with hu | hl
      · have : 65 ≤ c.val.toNat := (of_decide_eq_true hu).1
        omega
      · have : 97 ≤ c.val.toNat := of_decide_eq_true (Bool.and_eq_true_iff.1 hl).1
        omega
    · cases hd
    · cases hd
    · have : 128 ≤ c.val.toNat := h
      omega
  · rintro rfl
    cases h

/-- A word is scanned again as itself before what ends it. -/
private theorem scan_word {c : Char} {cs : List Char} (h : IsIdentifier wide (c :: cs))
    (ht : Stops (isIdentifierPart wide) tail) :
    scan wide c (cs ++ tail) = .lexeme
      (some (match Keyword.ofText? (String.ofList (c :: cs)) with
        | some keyword => .keyword keyword
        | none => .identifier)) (c :: cs) tail := by
  obtain ⟨⟨_, _, hcs, hstart⟩, hparts⟩ := h
  cases hcs
  obtain ⟨hblank, hslash, -, -⟩ := startsWord_facts hstart
  have hrun := run_append_stops hparts ht
  rw [List.cons_append] at hrun
  rw [startsWord] at hstart
  have hscan : scan wide c (cs ++ tail) = scanWord wide c (cs ++ tail) := by
    simp [scan, hblank, scanComment?_of_ne hslash, hstart]
  rw [hscan, scanWord]
  generalize run (isIdentifierPart wide) (c :: (cs ++ tail)) = taken at hrun ⊢
  subst hrun
  rfl

/-- A number is scanned wherever one starts, before the punctuators are tried. -/
theorem scan_of_startsNumber {c : Char} (hs : startsNumber (c :: input) = true) :
    scan wide c input =
      .lexeme (some .number) (number (c :: input)).1 (number (c :: input)).2 := by
  have hc : c.isDigit = true ∨ c = '.' := by
    simp only [startsNumber, Bool.or_eq_true, Bool.and_eq_true, decide_eq_true_eq] at hs
    exact hs.imp id And.left
  have hword : (isIdentifierStart c || isWide c) = false := by
    refine Bool.eq_false_iff.mpr fun hw => ?_
    obtain ⟨-, -, hdigit, hdot⟩ := startsWord_facts hw
    rcases hc with hc | hc
    · simp [hdigit] at hc
    · exact hdot hc
  have hblank : isBlank c = false := by
    refine Bool.eq_false_iff.mpr fun hb => ?_
    simp only [isBlank, Bool.or_eq_true, decide_eq_true_eq] at hb
    rcases hb with (((rfl | rfl) | rfl) | rfl) | rfl <;> rcases hc with hc | hc <;> cases hc
  have hslash : c ≠ '/' := by
    rintro rfl
    rcases hc with hc | hc <;> cases hc
  simp only [scan, hblank, scanComment?_of_ne hslash, hword, hs, Bool.false_eq_true, if_false,
    if_true]

/-- A number is scanned again as itself before what ends it. -/
theorem scan_number {c : Char} {cs : List Char} (hs : startsNumber (c :: cs) = true)
    (h : number (c :: cs) = (c :: cs, [])) (ht : EndsNumber (c :: cs) tail) :
    scan wide c (cs ++ tail) = .lexeme (some .number) (c :: cs) tail := by
  have hstarts : startsNumber (c :: (cs ++ tail)) = true := startsNumber_again hs h
  have hnumber : number (c :: (cs ++ tail)) = (c :: cs, tail) := number_again h ht
  rw [scan_of_startsNumber hstarts, hnumber]

private theorem scanComment?_punctuator {p : Punctuator}
    (h : ∀ c ∈ tail.head?, p = .slash → c ≠ '/' ∧ c ≠ '*') :
    scanComment? (p.text.toList ++ tail) = none := by
  cases p with
  | slash =>
    show scanComment? ('/' :: tail) = none
    unfold scanComment?
    split
    next heq =>
      cases heq
      exact absurd rfl (h '/' rfl rfl).1
    next heq =>
      cases heq
      exact absurd rfl (h '*' rfl rfl).2
    next => rfl
  | _ => rfl

private theorem startsNumber_punctuator {p : Punctuator}
    (h : ∀ c ∈ tail.head?, p = .dot → c.isDigit = false) :
    startsNumber (p.text.toList ++ tail) = false := by
  cases p with
  | dot =>
    show startsNumber ('.' :: tail) = false
    cases tail with
    | nil => rfl
    | cons c tail => simpa [startsNumber] using h c rfl rfl
  | _ => rfl

/-- A punctuator is scanned again as itself before what it does not go on with. -/
private theorem scan_punctuator {p : Punctuator}
    (h : ∀ c ∈ tail.head?, EndsBefore wide (.punctuator p) c) :
    ∃ c cs, p.text.toList = c :: cs ∧
      scan wide c (cs ++ tail) = .lexeme (some (.punctuator p)) p.text.toList tail := by
  obtain ⟨c, cs, hcs, hfacts⟩ : ∃ c cs, p.text.toList = c :: cs ∧ isBlank c = false ∧
      (isIdentifierStart c || isWide c) = false ∧ c ≠ '\'' ∧ c ≠ '"' := by
    cases p <;> exact ⟨_, _, rfl, by decide⟩
  obtain ⟨hblank, hword, hquote, hquotes⟩ := hfacts
  have hfind := find?_punctuator_append fun c hc => (h c hc).1
  have hnumber := startsNumber_punctuator fun c hc => (h c hc).2.1
  have hcomment := scanComment?_punctuator fun c hc => (h c hc).2.2
  rw [hcs, List.cons_append] at hfind hnumber hcomment
  refine ⟨c, cs, hcs, ?_⟩
  simp only [scan, hblank, hcomment, hword, hnumber, hquote, hquotes, scanPunctuator, hfind,
    Bool.false_eq_true, if_false, hcs]
  simp

/-- A lexeme is cut out of a text again, if what follows it does not go on with it. -/
theorem scan_of_lexeme {w : Word} (hw : Lexeme wide w)
    (ht : ∀ c ∈ tail.head?, EndsBefore wide w c) :
    ∃ c cs, w.text.toList = c :: cs ∧
      scan wide c (cs ++ tail) = .lexeme (some w.kind) w.text.toList tail := by
  cases w with
  | identifier text =>
    obtain ⟨hword, hkeyword⟩ := hw
    obtain ⟨c, cs, hcs, -⟩ := hword.start
    have htext : String.ofList (c :: cs) = text := by rw [← hcs, String.ofList_toList]
    rw [hcs] at hword
    refine ⟨c, cs, hcs, ?_⟩
    rw [scan_word hword ht, htext, hkeyword, Word.text, hcs]
    rfl
  | keyword k =>
    have hword : IsIdentifier wide k.text.toList := isIdentifier_keyword k
    obtain ⟨c, cs, hcs, -⟩ := hword.start
    have htext : String.ofList (c :: cs) = k.text := by rw [← hcs, String.ofList_toList]
    rw [hcs] at hword
    refine ⟨c, cs, hcs, ?_⟩
    rw [scan_word hword ht, htext, keyword_ofText?_text, Word.text, hcs]
    rfl
  | number text =>
    obtain ⟨hs, hnumber⟩ := hw
    cases hcs : text.toList with
    | nil =>
      rw [hcs] at hs
      cases hs
    | cons c cs =>
      rw [hcs] at hs hnumber
      refine ⟨c, cs, hcs, ?_⟩
      rw [scan_number hs hnumber (.of_stops ht), Word.text, hcs]
      rfl
  | character text =>
    obtain ⟨taken, hcs, hq⟩ := hw
    refine ⟨'\'', taken, hcs, ?_⟩
    show scanQuoted .character '\'' (taken ++ tail) = _
    rw [scanQuoted, quotedTail_again hq, Word.text, hcs]
    rfl
  | string text =>
    obtain ⟨taken, hcs, hq⟩ := hw
    refine ⟨'"', taken, hcs, ?_⟩
    show scanQuoted .string '"' (taken ++ tail) = _
    rw [scanQuoted, quotedTail_again hq, Word.text, hcs]
    rfl
  | punctuator p => exact scan_punctuator ht

/-! ## What is cut out of a text -/

private theorem keyword_text_of_ofText? {text : String} {k : Keyword}
    (h : Keyword.ofText? text = some k) :
    k.text = text := by
  have hfound := List.find?_some h
  exact eq_of_beq hfound

/-- A word that is scanned is an identifier or a keyword. -/
private theorem lexeme_of_scanWord {c : Char} {kind : TokenKind} {text : List Char}
    (hstart : startsWord c = true) (h : scanWord wide c input = .lexeme (some kind) text rest) :
    ∃ w, Lexeme wide w ∧ w.kind = kind ∧ w.text.toList = text := by
  obtain ⟨taken, rest', hr⟩ :
      ∃ taken rest', run (isIdentifierPart wide) (c :: input) = (taken, rest') := ⟨_, _, rfl⟩
  cases taken with
  | nil => simp [scanWord, hr] at h
  | cons d taken =>
    have happ := run_append (isIdentifierPart wide) (c :: input)
    rw [hr] at happ
    have hcd : d = c := (List.cons.inj happ).1
    subst hcd
    have htaken : (run (isIdentifierPart wide) (d :: input)).1 = d :: taken := by rw [hr]
    have hword : IsIdentifier wide (d :: taken) := by
      refine ⟨⟨d, taken, rfl, hstart⟩, fun c hc => ?_⟩
      rw [← htaken] at hc
      exact List.all_eq_true.mp List.all_takeWhile c hc
    simp only [scanWord, hr] at h
    cases h
    cases hk : Keyword.ofText? (String.ofList (d :: taken)) with
    | none =>
      exact ⟨.identifier (String.ofList (d :: taken)), ⟨by simpa using hword, hk⟩, rfl,
        by simp [Word.text]⟩
    | some k => exact ⟨.keyword k, trivial, rfl, by simp [Word.text, keyword_text_of_ofText? hk]⟩

private theorem lexeme_of_quotedTail {quote : Char} {taken : List Char}
    (h : quotedTail quote input = (taken, some rest)) :
    quotedTail quote taken = (taken, some []) := by
  have hagain : quotedTail quote (taken ++ []) = (taken, some []) := quotedTail_again h
  rwa [List.append_nil] at hagain

/-- Every lexeme that is not a blank or a comment is a word that can be cut out again. -/
theorem lexeme_of_scan {c : Char} {kind : TokenKind} {text : List Char}
    (h : scan wide c input = .lexeme (some kind) text rest) :
    ∃ w, Lexeme wide w ∧ w.kind = kind ∧ w.text.toList = text := by
  unfold scan at h
  split at h
  · cases h
  split at h
  next comment hc =>
    unfold scanComment? at hc
    split at hc
    · cases hc; cases h
    · split at hc <;> cases hc <;> cases h
    · cases hc
  split at h
  next hstart => exact lexeme_of_scanWord hstart h
  split at h
  next hs =>
    obtain ⟨taken, rest', hn⟩ : ∃ taken rest', number (c :: input) = (taken, rest') := ⟨_, _, rfl⟩
    simp only [hn] at h
    cases h
    have hagain := number_again hn (.of_stops stops_nil)
    have hstarts : startsNumber (text ++ []) = true := startsNumber_again hs hn
    rw [List.append_nil] at hagain hstarts
    exact ⟨.number (String.ofList text), by simpa [Lexeme] using ⟨hstarts, hagain⟩, rfl,
      by simp [Word.text]⟩
  split at h
  next hquote =>
    subst hquote
    unfold scanQuoted at h
    split at h
    next taken rest' hq =>
      cases h
      exact ⟨.character (String.ofList ('\'' :: taken)),
        ⟨taken, by simp, lexeme_of_quotedTail hq⟩, rfl, by simp [Word.text]⟩
    next => cases h
  split at h
  next hquote =>
    subst hquote
    unfold scanQuoted at h
    split at h
    next taken rest' hq =>
      cases h
      exact ⟨.string (String.ofList ('"' :: taken)),
        ⟨taken, by simp, lexeme_of_quotedTail hq⟩, rfl, by simp [Word.text]⟩
    next => cases h
  unfold scanPunctuator at h
  split at h
  next p hp =>
    cases h
    exact ⟨.punctuator p, trivial, rfl, rfl⟩
  next => cases h

end JavaFold.Lexer
