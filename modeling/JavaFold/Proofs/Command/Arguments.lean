import JavaFold.Command.Arguments
import JavaFold.Proofs.Arena.Checks
import Mathlib.Data.List.Forall2
import Mathlib.Data.List.Induction
import Mathlib.Data.Nat.Digits.Defs

/-!
# What a command line says

An argument is read on its own, so a command line is read by what its arguments are and not by where
they stand. Arguments that cannot be read are described by `Argument.Bad`, and the first of them
decides the error. Without any, the command depends on the paths, the disabled rules and the limits
of rounds, each in their order, and on which flags occur (`Command.parse_eq`).
-/

namespace JavaFold

namespace Argument

/-! ## Values of options -/

/-- An option with a value is the name of the option and the value after it. -/
theorem value?_eq_some {option text value : String} :
    value? option text = some value ↔ text = option ++ value := by
  rw [value?, Option.map_eq_some_iff]
  constructor
  · rintro ⟨rest, hrest, rfl⟩
    have happ := List.isPrefixOf?_eq_some_iff_append_eq.1 hrest
    rw [← String.toList_inj, String.toList_append, String.toList_ofList, happ]
  · rintro rfl
    refine ⟨value.toList, ?_, String.ofList_toList⟩
    rw [List.isPrefixOf?_eq_some_iff_append_eq, String.toList_append]

/-- A text is a positive number of 64 bits: at least one decimal digit, after at most one plus sign.
-/
def Denotes (text : String) (count : Nat) : Prop :=
  ∃ digits : List Char, digits ≠ [] ∧ (∀ c ∈ digits, c.isDigit = true) ∧
    (text.toList = digits ∨ text.toList = '+' :: digits) ∧
    count = Nat.ofDigits 10 (digits.reverse.map fun c => c.toNat - '0'.toNat) ∧
    0 < count ∧ count < 2 ^ 64

private theorem decimal_eq_ofDigits (digits : List Char) :
    decimal digits = Nat.ofDigits 10 (digits.reverse.map fun c => c.toNat - '0'.toNat) := by
  induction digits using List.reverseRecOn with
  | nil => rfl
  | append_singleton digits c ih =>
    rw [decimal] at ih
    rw [decimal, List.foldl_concat, ih, List.reverse_append, List.reverse_singleton,
      List.singleton_append, List.map_cons, Nat.ofDigits_cons, Nat.add_comm]

/-- A sign is left out if there is one. -/
theorem withoutPlus_cases (chars : List Char) :
    chars = withoutPlus chars ∨ chars = '+' :: withoutPlus chars := by
  unfold withoutPlus
  split
  · exact .inr rfl
  · exact .inl rfl

private theorem withoutPlus_of_isDigit {chars : List Char} (h : ∀ c ∈ chars, c.isDigit = true) :
    withoutPlus chars = chars := by
  unfold withoutPlus
  split
  next rest => cases h '+' List.mem_cons_self
  next => rfl

/-- A count is read from digits with a plus sign or none, if the number is positive and fits the
machine. -/
private theorem positiveCount?_eq_some {text : String} {count : Nat} :
    positiveCount? text = some count ↔ Denotes text count := by
  have hmax : maxCount + 1 = 2 ^ 64 := by decide
  simp only [positiveCount?, Option.ite_none_right_eq_some, Bool.and_eq_true, List.all_eq_true,
    decide_eq_true_eq]
  constructor
  · rintro ⟨⟨⟨hdigits, hpos⟩, hle⟩, hcount⟩
    cases hcount
    refine ⟨withoutPlus text.toList, ?_, hdigits, withoutPlus_cases _, decimal_eq_ofDigits _, hpos,
      by omega⟩
    intro hnil
    rw [hnil] at hpos
    exact absurd hpos (by decide)
  · rintro ⟨digits, -, hdigits, htext, rfl, hpos, hlt⟩
    have hwithout : withoutPlus text.toList = digits := by
      rcases htext with htext | htext <;> rw [htext]
      · exact withoutPlus_of_isDigit hdigits
      · rfl
    rw [hwithout, decimal_eq_ofDigits]
    exact ⟨⟨⟨hdigits, hpos⟩, by omega⟩, rfl⟩

/-! ## Single arguments -/

/-- Whether an argument has the form of an option: a dash with something after it. -/
def isOption (text : String) : Bool :=
  text.toList.head? == some '-' && 1 < text.utf8ByteSize

/-- An argument that cannot be read, with the error that it leads to. -/
inductive Bad : String → UsageError → Prop where
  /-- A limit of rounds that is not a positive number of 64 bits. -/
  | rounds {value : String} (h : ∀ count, ¬ Denotes value count) :
    Bad ("--max-rounds=" ++ value) (.invalidRounds value)
  /-- An option that there is not. -/
  | option {text : String} (h : isOption text = true) (hlist : text ≠ "--list-rules")
    (hverbose : text ≠ "--verbose") (hshort : text ≠ "-v")
    (hrounds : ∀ value, text ≠ "--max-rounds=" ++ value)
    (hdisable : ∀ rule, text ≠ "--disable=" ++ rule) : Bad text (.unknownOption text)

private theorem isOption_append {option : String} (h : isOption option = true) (value : String) :
    isOption (option ++ value) = true := by
  simp only [isOption, Bool.and_eq_true, beq_iff_eq, decide_eq_true_eq] at h ⊢
  obtain ⟨hhead, hsize⟩ := h
  rw [String.toList_append, List.head?_append, hhead, String.utf8ByteSize_append]
  exact ⟨rfl, by omega⟩

/-- Of the texts that start with a dash only the dash itself is no option. -/
theorem isOption_iff {text : String} :
    isOption text = true ↔ text ≠ "-" ∧ text.toList.head? = some '-' := by
  rw [isOption, Bool.and_eq_true, beq_iff_eq, decide_eq_true_eq, and_comm]
  refine and_congr_left fun hhead => ?_
  obtain ⟨rest, hrest⟩ := List.head?_eq_some_iff.1 hhead
  obtain rfl : text = "-" ++ String.ofList rest := by
    rw [← String.toList_inj, hrest, String.toList_append, String.toList_ofList,
      String.toList_ofList, List.singleton_append]
  have hdash : "-" ++ String.ofList rest = "-" ↔ (String.ofList rest).utf8ByteSize = 0 := by
    rw [String.utf8ByteSize_eq_zero_iff, String.append_eq_left_iff]
  have hsize : "-".utf8ByteSize = 1 := rfl
  rw [String.utf8ByteSize_append, ne_eq, hdash, hsize]
  omega

private theorem value?_eq_none {option text : String} :
    value? option text = none ↔ ∀ value, text ≠ option ++ value := by
  rw [Option.eq_none_iff_forall_ne_some]
  exact forall_congr' fun value => not_congr value?_eq_some

/-- What an argument that can be read stands for. -/
inductive Reads : String → Argument → Prop where
  | listRules : Reads "--list-rules" .listRules
  | verbose : Reads "--verbose" .verbose
  | short : Reads "-v" .verbose
  | maxRounds {value : String} {count : Nat} (h : Denotes value count) :
    Reads ("--max-rounds=" ++ value) (.maxRounds count)
  | disable (rule : String) : Reads ("--disable=" ++ rule) (.disable rule)
  | path {text : String} (h : isOption text = false) : Reads text (.path text)

/-- An argument can be read or it is bad, and it is taken accordingly. -/
theorem parse_cases (text : String) :
    (∃ argument, parse text = .ok argument ∧ Reads text argument) ∨
      ∃ error, parse text = .error error ∧ Bad text error := by
  unfold parse
  split
  next hlist => exact .inl ⟨_, rfl, hlist ▸ .listRules⟩
  next hlist =>
    split
    next hverbose =>
      rcases hverbose with rfl | rfl
      · exact .inl ⟨_, rfl, .verbose⟩
      · exact .inl ⟨_, rfl, .short⟩
    next hverbose =>
      split
      next value hvalue =>
        obtain rfl := value?_eq_some.1 hvalue
        cases hcount : positiveCount? value with
        | some count => exact .inl ⟨_, rfl, .maxRounds (positiveCount?_eq_some.1 hcount)⟩
        | none =>
          refine .inr ⟨_, rfl, .rounds fun count hdenotes => ?_⟩
          cases hcount.symm.trans (positiveCount?_eq_some.2 hdenotes)
      next hrounds =>
        split
        next rule hrule => exact .inl ⟨_, rfl, value?_eq_some.1 hrule ▸ .disable rule⟩
        next hrule =>
          split
          next hoption =>
            exact .inr ⟨_, rfl, .option (isOption_iff.2 hoption) hlist (hverbose ∘ .inl)
              (hverbose ∘ .inr) (fun value => hrounds value ∘ value?_eq_some.2)
              fun rule => hrule rule ∘ value?_eq_some.2⟩
          next hpath =>
            exact .inl ⟨_, rfl, .path (Bool.eq_false_iff.2 fun h => hpath (isOption_iff.1 h))⟩

/-- The third character tells the options apart. -/
theorem append_ne_of_third {option text : String} (ho : 2 < option.toList.length)
    (h : option.toList[2]? ≠ text.toList[2]?) (value : String) : option ++ value ≠ text := by
  rintro rfl
  rw [String.toList_append, List.getElem?_append_left ho] at h
  exact h rfl

private theorem maxRounds_ne_disable (value rule : String) :
    "--max-rounds=" ++ value ≠ "--disable=" ++ rule := by
  refine append_ne_of_third (by decide) ?_ value
  rw [String.toList_append, List.getElem?_append_left (by decide)]
  decide

private theorem value?_of_isOption {option text : String} (ho : isOption option = true)
    (h : isOption text = false) : value? option text = none := by
  rw [value?_eq_none]
  rintro value rfl
  rw [isOption_append ho] at h
  cases h

/-- A bad argument is refused with its error. -/
theorem parse_of_bad {text : String} {error : UsageError} (h : Bad text error) :
    parse text = .error error := by
  cases h with
  | @rounds value h =>
    have hlist : "--max-rounds=" ++ value ≠ "--list-rules" :=
      append_ne_of_third (by decide) (by decide) value
    have hverbose : ¬ ("--max-rounds=" ++ value = "--verbose" ∨ "--max-rounds=" ++ value = "-v") :=
      not_or.2 ⟨append_ne_of_third (by decide) (by decide) value,
        append_ne_of_third (by decide) (by decide) value⟩
    have hcount : positiveCount? value = none :=
      Option.eq_none_iff_forall_ne_some.2 fun count hc => h count (positiveCount?_eq_some.1 hc)
    rw [parse, if_neg hlist, if_neg hverbose, value?_eq_some.2 rfl]
    simp only [hcount]
    rfl
  | option h hlist hverbose hshort hrounds hdisable =>
    rw [parse, if_neg hlist, if_neg (not_or.2 ⟨hverbose, hshort⟩), value?_eq_none.2 hrounds,
      value?_eq_none.2 hdisable]
    exact if_pos (isOption_iff.1 h)

section Facts

variable {text : String} {argument : Argument} (h : Reads text argument)

include h

private theorem Reads.listRules_iff : argument = .listRules ↔ text = "--list-rules" := by
  cases h with
  | listRules | verbose | short => decide
  | maxRounds | disable => exact iff_of_false nofun (append_ne_of_third (by decide) (by decide) _)
  | path h => exact iff_of_false nofun (by rintro rfl; exact absurd h (by decide))

private theorem Reads.verbose_iff : argument = .verbose ↔ text = "--verbose" ∨ text = "-v" := by
  cases h with
  | listRules | verbose | short => decide
  | maxRounds | disable =>
    exact iff_of_false nofun (not_or.2 ⟨append_ne_of_third (by decide) (by decide) _,
      append_ne_of_third (by decide) (by decide) _⟩)
  | path h => exact iff_of_false nofun (by rintro (rfl | rfl) <;> exact absurd h (by decide))

private theorem Reads.maxRounds?_eq :
    argument.maxRounds? = (value? "--max-rounds=" text).bind positiveCount? := by
  cases h with
  | listRules | verbose | short => decide
  | maxRounds h =>
    rw [value?_eq_some.2 rfl, Option.bind_some, positiveCount?_eq_some.2 h, maxRounds?]
  | disable rule =>
    rw [value?_eq_none.2 fun value => (maxRounds_ne_disable value rule).symm]
    rfl
  | path h =>
    rw [value?_of_isOption (by decide) h]
    rfl

private theorem Reads.disabled?_eq : argument.disabled? = value? "--disable=" text := by
  cases h with
  | listRules | verbose | short => decide
  | @maxRounds value =>
    rw [value?_eq_none.2 (maxRounds_ne_disable value)]
    rfl
  | disable => rw [value?_eq_some.2 rfl, disabled?]
  | path h =>
    rw [value?_of_isOption (by decide) h]
    rfl

private theorem Reads.path?_eq : argument.path? = if isOption text then none else some text := by
  cases h with
  | listRules | verbose | short => decide
  | maxRounds | disable =>
    rw [isOption_append (by decide)]
    rfl
  | path h =>
    rw [h]
    rfl

end Facts

/-! ## Arguments in a row -/

/-- The first bad argument decides. -/
theorem mapM_parse_of_bad {before after : List String} {text : String} {error : UsageError}
    (hbefore : ∀ earlier ∈ before, ∀ e, ¬ Bad earlier e) (h : Bad text error) :
    (before ++ text :: after).mapM parse = .error error := by
  induction before with
  | nil =>
    rw [List.nil_append, List.mapM_cons, parse_of_bad h]
    rfl
  | cons first before ih =>
    obtain ⟨hfirst, hbefore⟩ := List.forall_mem_cons.1 hbefore
    rcases parse_cases first with ⟨argument, hok, -⟩ | ⟨e, -, hbad⟩
    · rw [List.cons_append, List.mapM_cons, hok, ih hbefore]
      rfl
    · exact absurd hbad (hfirst e)

/-- Without a bad argument each one is read. -/
theorem mapM_parse_of_forall {texts : List String} (h : ∀ text ∈ texts, ∀ e, ¬ Bad text e) :
    ∃ arguments, texts.mapM parse = .ok arguments ∧ List.Forall₂ Reads texts arguments := by
  induction texts with
  | nil => exact ⟨[], rfl, .nil⟩
  | cons first texts ih =>
    obtain ⟨hfirst, hrest⟩ := List.forall_mem_cons.1 h
    obtain ⟨arguments, harguments, hreads⟩ := ih hrest
    rcases parse_cases first with ⟨argument, hok, hread⟩ | ⟨e, -, hbad⟩
    · refine ⟨argument :: arguments, ?_, .cons hread hreads⟩
      rw [List.mapM_cons, hok, harguments]
      rfl
    · exact absurd hbad (hfirst e)

/-- Where all arguments are read, each one is. -/
theorem exists_of_mapM_parse {texts : List String} {arguments : List Argument} {text : String}
    (h : texts.mapM parse = .ok arguments) (htext : text ∈ texts) :
    ∃ argument, parse text = .ok argument := by
  induction texts generalizing arguments with
  | nil => cases htext
  | cons first texts ih =>
    rw [List.mapM_cons] at h
    obtain ⟨argument, hfirst, h⟩ := bind_eq_ok.1 h
    obtain ⟨rest, hrest, -⟩ := bind_eq_ok.1 h
    rcases List.mem_cons.1 htext with rfl | htext
    · exact ⟨argument, hfirst⟩
    · exact ih hrest htext

section Rows

variable {texts : List String} {arguments : List Argument} (h : List.Forall₂ Reads texts arguments)

include h

private theorem filterMap_of_reads {α : Type} {f : Argument → Option α} {g : String → Option α}
    (hf : ∀ {text argument}, Reads text argument → f argument = g text) :
    arguments.filterMap f = texts.filterMap g := by
  induction h with
  | nil => rfl
  | cons hread _ ih => rw [List.filterMap_cons, List.filterMap_cons, hf hread, ih]

private theorem mem_of_reads {flag : Argument} {P : String → Prop}
    (hf : ∀ {text argument}, Reads text argument → (argument = flag ↔ P text)) :
    flag ∈ arguments ↔ ∃ text ∈ texts, P text := by
  induction h with
  | nil => simp
  | cons hread _ ih =>
    rw [List.mem_cons, ih, List.exists_mem_cons_iff, ← hf hread, eq_comm]

end Rows

end Argument

namespace Command

open Argument

variable {texts texts' : List String}

/-- The paths on a command line. -/
def paths (texts : List String) : List String :=
  texts.filter fun text => !isOption text

/-- The rules to be left out on a command line. -/
def disabled (texts : List String) : List String :=
  texts.filterMap (value? "--disable=")

/-- What is said on a command line to be the limit of rounds. -/
def limits (texts : List String) : List String :=
  texts.filterMap (value? "--max-rounds=")

/-- The command of a command line without a bad argument. -/
theorem parse_eq (h : ∀ text ∈ texts, ∀ e, ¬ Bad text e) :
    parse texts =
      if "--list-rules" ∈ texts then
        if paths texts = [] then .ok .listRules else .error .listingWithPaths
      else match paths texts with
        | [input, output] => .ok (.fold {
            input, output
            maxRounds := ((limits texts).filterMap positiveCount?).getLastD 64
            disabled := disabled texts
            verbose := decide ("--verbose" ∈ texts ∨ "-v" ∈ texts) })
        | _ => .error (.wrongPathCount (paths texts).length) := by
  obtain ⟨arguments, harguments, hreads⟩ := mapM_parse_of_forall h
  have hlist : .listRules ∈ arguments ↔ "--list-rules" ∈ texts := by
    rw [mem_of_reads hreads fun h => h.listRules_iff]
    simp
  have hverbose : .verbose ∈ arguments ↔ "--verbose" ∈ texts ∨ "-v" ∈ texts := by
    rw [mem_of_reads hreads fun h => h.verbose_iff]
    simp [and_or_left, exists_or]
  have hpaths : arguments.filterMap path? = paths texts := by
    rw [filterMap_of_reads hreads fun h => h.path?_eq, paths, ← List.filterMap_eq_filter]
    refine List.filterMap_congr fun text _ => ?_
    cases hoption : isOption text <;> simp [Option.guard, hoption]
  have hdisabled : arguments.filterMap disabled? = disabled texts :=
    filterMap_of_reads hreads fun h => h.disabled?_eq
  have hlimits : arguments.filterMap maxRounds? = (limits texts).filterMap positiveCount? := by
    rw [filterMap_of_reads hreads fun h => h.maxRounds?_eq, limits, List.filterMap_filterMap]
  rw [parse, harguments]
  change ofArguments arguments = _
  simp only [ofArguments, hpaths, hdisabled, hlimits, List.contains_eq_mem, hlist, hverbose,
    decide_eq_true_eq, List.isEmpty_iff, Rule.defaultMaxRounds]
  rfl

/-- What is said to be a limit is a number unless it is bad. -/
theorem exists_denotes_of_mem_limits (h : ∀ text ∈ texts, ∀ e, ¬ Bad text e) {value : String}
    (hvalue : value ∈ limits texts) : ∃ count, Denotes value count := by
  obtain ⟨text, htext, hsome⟩ := List.mem_filterMap.1 hvalue
  obtain rfl := value?_eq_some.1 hsome
  by_contra hnone
  exact h _ htext _ (.rounds fun count hcount => hnone ⟨count, hcount⟩)

/-- The last limit holds, and 64 if there is none. -/
theorem denotes_of_limits (h : ∀ text ∈ texts, ∀ e, ¬ Bad text e) :
    (limits texts = [] → ((limits texts).filterMap positiveCount?).getLastD 64 = 64) ∧
      ∀ value ∈ (limits texts).getLast?,
        Denotes value (((limits texts).filterMap positiveCount?).getLastD 64) := by
  refine ⟨fun hnil => by rw [hnil]; rfl, fun value hlast => ?_⟩
  obtain ⟨count, hcount⟩ := exists_denotes_of_mem_limits h (List.mem_of_getLast? hlast)
  obtain ⟨earlier, hlimits⟩ := List.getLast?_eq_some_iff.1 hlast
  rw [hlimits, List.filterMap_append, List.filterMap_cons_some (positiveCount?_eq_some.2 hcount),
    List.filterMap_nil, List.getLastD_concat]
  exact hcount

/-- No argument of a command that is read is bad. -/
theorem not_bad_of_parse {command : Command} (h : parse texts = .ok command) :
    ∀ text ∈ texts, ∀ e, ¬ Bad text e := by
  intro text htext e hbad
  obtain ⟨arguments, harguments, -⟩ := bind_eq_ok.1 h
  obtain ⟨argument, hok⟩ := exists_of_mapM_parse harguments htext
  cases hok.symm.trans (parse_of_bad hbad)

/-- A command line is read by what is on it. The first bad argument decides the error. Without one,
the request for the list of rules is the command if there are no paths, and is refused if there are.
Without such a request there have to be two paths, which are the input and the output; the last
limit of rounds holds, the disabled rules are listed in their order, and reports are made if one of
the flags for them occurs. So arguments may be put in another order, as long as paths, disabled
rules and limits each keep theirs. -/
theorem parse_by_arguments (texts : List String) :
    (∀ before text after error, texts = before ++ text :: after →
      (∀ earlier ∈ before, ∀ e, ¬ Bad earlier e) → Bad text error →
        parse texts = .error error) ∧
    ((∀ text ∈ texts, ∀ e, ¬ Bad text e) →
      ("--list-rules" ∈ texts →
        (paths texts = [] → parse texts = .ok .listRules) ∧
        (paths texts ≠ [] → parse texts = .error .listingWithPaths)) ∧
      ("--list-rules" ∉ texts →
        ((∃ command, parse texts = .ok command) ↔ (paths texts).length = 2) ∧
        ∀ input output, paths texts = [input, output] → ∃ rounds,
          (limits texts = [] → rounds = 64) ∧
          (∀ value ∈ (limits texts).getLast?, Denotes value rounds) ∧
          parse texts = .ok (.fold {
            input, output
            maxRounds := rounds
            disabled := disabled texts
            verbose := decide ("--verbose" ∈ texts ∨ "-v" ∈ texts) }))) ∧
    ∀ texts' command, texts'.Perm texts → paths texts' = paths texts →
      disabled texts' = disabled texts → limits texts' = limits texts →
        parse texts = .ok command → parse texts' = .ok command := by
  refine ⟨?first, fun hgood => ⟨fun hlist => ?listing, fun hlist => ?folding⟩, ?order⟩
  case first =>
    rintro before text after error rfl hbefore hbad
    rw [parse, mapM_parse_of_bad hbefore hbad]
    rfl
  case listing =>
    rw [parse_eq hgood, if_pos hlist]
    exact ⟨fun hpaths => if_pos hpaths, fun hpaths => if_neg hpaths⟩
  case folding =>
    obtain ⟨hnone, hlast⟩ := denotes_of_limits hgood
    rw [parse_eq hgood, if_neg hlist]
    refine ⟨⟨?_, fun htwo => ?_⟩, fun input output hpaths => ⟨_, hnone, hlast, by rw [hpaths]⟩⟩
    · rintro ⟨command, hcommand⟩
      split at hcommand
      next hpaths =>
        rw [hpaths]
        rfl
      next => cases hcommand
    · obtain ⟨input, output, hpaths⟩ := List.length_eq_two.1 htwo
      exact ⟨_, by rw [hpaths]⟩
  case order =>
    intro texts' command hperm hpaths hdisabled hlimits h
    have hgood := not_bad_of_parse h
    have hgood' : ∀ text ∈ texts', ∀ e, ¬ Bad text e :=
      fun text htext => hgood text (hperm.mem_iff.1 htext)
    rw [← h, parse_eq hgood, parse_eq hgood', hpaths, hdisabled, hlimits]
    -- of the flags it only matters which ones occur
    simp only [hperm.mem_iff]

/-- The last of two limits holds, wherever the paths and the flag stand. A limit of zero rounds is
refused before the unknown option after it, and although the list of rules is asked for. -/
theorem parse_by_arguments_limits :
    (∃ rounds, Denotes "+3" rounds ∧
      parse ["-v", "a", "--max-rounds=2", "--disable=x", "b", "--max-rounds=+3"] =
        .ok (.fold ⟨"a", "b", rounds, ["x"], true⟩) ∧
      parse ["--max-rounds=2", "a", "b", "--max-rounds=+3", "--disable=x", "-v"] =
        .ok (.fold ⟨"a", "b", rounds, ["x"], true⟩)) ∧
    parse ["--list-rules", "--max-rounds=0", "--fast"] = .error (.invalidRounds "0") := by
  refine ⟨?_, ?_⟩
  · obtain ⟨-, hgood, horder⟩ := parse_by_arguments
      ["-v", "a", "--max-rounds=2", "--disable=x", "b", "--max-rounds=+3"]
    have hread : parse ["-v", "a", "--max-rounds=2", "--disable=x", "b", "--max-rounds=+3"] =
        .ok (.fold ⟨"a", "b", 3, ["x"], true⟩) := by
      decide
    obtain ⟨-, hfold⟩ := (hgood (not_bad_of_parse hread)).2 (by decide)
    obtain ⟨rounds, -, hlast, hparse⟩ := hfold "a" "b" (by decide)
    exact ⟨rounds, hlast "+3" (by decide), hparse,
      horder _ _ (by decide) (by decide) (by decide) (by decide) hparse⟩
  · have hzero : Bad "--max-rounds=0" (.invalidRounds "0") := by
      refine @Bad.rounds "0" fun count hcount => ?_
      have hnone : positiveCount? "0" = none := by decide
      cases hnone.symm.trans (positiveCount?_eq_some.2 hcount)
    have hlist : parse ["--list-rules"] = .ok .listRules := by decide
    exact (parse_by_arguments _).1 ["--list-rules"] _ ["--fast"] _ rfl (not_bad_of_parse hlist)
      hzero

end Command

end JavaFold
