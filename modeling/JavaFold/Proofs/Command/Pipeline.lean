import JavaFold.Command.Pipeline
import JavaFold.Proofs.Files.System
import JavaFold.Proofs.Fold.Render

/-!
# What folding a file does to the files

A file is folded in stages: it is read, its text is parsed, the rules are chosen, the tree is
folded, and the result is written. The first stage that fails decides the error, and nothing is
written before the last one. Of the stages in between only a few things can go wrong
(`FoldOptions.Refuses`): once a text is parsed and the rules are chosen, no change of its tree is
ever refused and the folded tree can always be written, so folding is given up only if the rounds do
not suffice.
-/

namespace JavaFold

/-! ## Literals in parentheses -/

namespace Tree

variable {ι : Type} {tree : Tree ι}

/-- A literal stands in parentheses somewhere in a tree. -/
def HasParenthesizedLiteral (tree : Tree ι) : Prop :=
  ∃ info inner, .node info (.parenthesizedExpression inner) ∈ tree.subtrees ∧
    inner.isLiteral = true

/-- If only parentheses lead down to a literal, the innermost of them are right around it. -/
theorem hasParenthesizedLiteral_of_endsInLiteral (info : ι) {inner : Tree ι}
    (h : inner.endsInLiteral = true) :
    HasParenthesizedLiteral (.node info (.parenthesizedExpression inner)) := by
  induction inner using byOccupants generalizing info with
  | absent => cases h
  | node info' kind ih =>
    by_cases htag : kind.tag = .parenthesizedExpression
    · obtain ⟨inner, rfl⟩ := NodeKind.exists_of_tag_eq htag
      obtain ⟨at', literal, hmem, hliteral⟩ :=
        ih inner (by simp [NodeKind.occupants, NodeKind.slots]) info' h
      refine ⟨at', literal, mem_subtrees_node.2 (.inr ⟨_, ?_, hmem⟩), hliteral⟩
      simp [NodeKind.occupants, NodeKind.slots]
    · rw [endsInLiteral_of_tag_ne htag] at h
      exact ⟨info, _, mem_subtrees_node.2 (.inl rfl), h⟩

private theorem endsInLiteral_of_isLiteral (h : tree.isLiteral = true) :
    tree.endsInLiteral = true := by
  cases tree with
  | absent => cases h
  | node info kind =>
    rw [endsInLiteral_of_tag_ne]
    · exact h
    · intro htag
      change kind.tag.isLiteral = true at h
      rw [htag] at h
      cases h

/-- There are parentheses to be taken away exactly if a literal stands in parentheses. -/
theorem redexes_pos_iff : 0 < tree.redexes ↔ tree.HasParenthesizedLiteral := by
  rw [redexes, List.countP_pos_iff]
  constructor
  · rintro ⟨part, hpart, hredex⟩
    rw [isRedex.eq_def] at hredex
    split at hredex
    next info inner =>
      obtain ⟨at', literal, hmem, hliteral⟩ := hasParenthesizedLiteral_of_endsInLiteral info hredex
      exact ⟨at', literal, mem_subtrees_trans hpart hmem, hliteral⟩
    next => cases hredex
  · rintro ⟨info, inner, hmem, hliteral⟩
    exact ⟨_, hmem, endsInLiteral_of_isLiteral hliteral⟩

end Tree

/-! ## The choice of rules -/

namespace Catalogue

open ParenthesizedLiteral

variable {disabled : List String} {error : FoldError} {rules : List Rule}

private theorem isNone_find? {name : String} : (find? name).isNone = true ↔ name ∉ names := by
  rw [find?, Option.isNone_iff_eq_none, List.find?_eq_none]
  simp [names]

/-- A name is the first one in a list that no rule has. -/
def FirstUnknown (disabled : List String) (unknown : String) : Prop :=
  ∃ before after, disabled = before ++ unknown :: after ∧ (∀ name ∈ before, name ∈ names) ∧
    unknown ∉ names

/-- The first name that is not known is reported. -/
theorem rulesWithout_eq_error :
    rulesWithout disabled = .error error ↔
      ∃ unknown, FirstUnknown disabled unknown ∧ error = .unknownRule unknown := by
  have hfind (unknown : String) : disabled.find? (fun name => (find? name).isNone) = some unknown ↔
      FirstUnknown disabled unknown := by
    rw [List.find?_eq_some_iff_append, isNone_find?, FirstUnknown]
    simp only [Bool.not_eq_true', ← Bool.not_eq_true, isNone_find?, not_not]
    grind
  simp only [rulesWithout, ← hfind]
  cases disabled.find? fun name => (find? name).isNone with
  | none => simp
  | some unknown => simp [eq_comm]

/-- If all names are known, the rules are chosen: the one there is, unless it is disabled. -/
theorem rulesWithout_eq_ok :
    rulesWithout disabled = .ok rules ↔
      (∀ name ∈ disabled, name ∈ names) ∧ rules = if name ∈ disabled then [] else [rule] := by
  have hfind : disabled.find? (fun name => (find? name).isNone) = none ↔
      ∀ name ∈ disabled, name ∈ names := by
    simp only [List.find?_eq_none, isNone_find?, not_not]
  rw [rulesWithout, ← hfind]
  cases disabled.find? fun name => (find? name).isNone with
  | some unknown => simp
  | none =>
    by_cases hname : name ∈ disabled <;> simp [entries, hname, eq_comm]

end Catalogue

/-! ## Folding what was parsed -/

namespace Arena

open ParenthesizedLiteral

variable {wide : Char → Bool} {goal : Goal} {source : String} {arena folded : Arena}
  {rules : List Rule} {maxRounds : Nat} {report : Report}

/-- Whatever the driver leaves of a whole tree can be written. -/
theorem Whole.exists_fold (h : arena.Whole) (hrules : ∀ r ∈ rules, r = rule)
    (hrun : (Rule.toFixedPoint rules maxRounds arena.root).run arena = .ok report folded) :
    ∃ text, arena.fold rules maxRounds = .ok ⟨text, report⟩ := by
  -- the rule only takes parentheses away, and nothing goes missing with them
  have hkeeps : ∀ r ∈ rules, ∀ root, Rewrite.Keeps (Rooted Tree.Complete) (r.rewrite root) := by
    intro r hr root arena h
    rw [hrules r hr]
    change ((Rewrite.ofEdit (rewrite root)).after arena).Rooted _
    rw [Rewrite.after_ofEdit]
    exact rooted_rewrite Tree.Complete.of_sheds root arena h
  have hrooted := Rule.keeps_toFixedPoint hkeeps maxRounds arena.root arena h.rooted
  rw [Rewrite.after, hrun] at hrooted
  obtain ⟨text, htext⟩ := hrooted.tree.of_mapInfo.exists_render?
  refine ⟨text, ?_⟩
  rw [fold, hrun]
  simp only
  rw [render?, htext]

/-- Without a rule there is nothing to do. -/
theorem exists_fold_nil (h : parseWith wide goal source = .ok arena) (hmax : 1 ≤ maxRounds) :
    ∃ folded, arena.fold [] maxRounds = .ok folded := by
  obtain ⟨tree, -, hholds⟩ := holds_of_parseWith h
  obtain ⟨node, hn⟩ := contains_iff.1 hholds.rooted
  have hcheck := checkFoldRoot_eq_ok hholds.built.linked hn (.inl rfl)
  obtain ⟨more, rfl⟩ := Nat.exists_eq_add_of_le' hmax
  have hrun : (Rule.toFixedPoint [] (more + 1) arena.root).run arena =
      .ok ⟨arena.root, 1, []⟩ arena := by
    rw [Rule.run_toFixedPoint hcheck]
    rfl
  obtain ⟨text, hfold⟩ := (whole_of_parseWith h).exists_fold (List.forall_mem_nil _) hrun
  exact ⟨_, hfold⟩

/-- With the rule for parenthesized literals one round does not suffice if there are any. -/
theorem fold_rule_cases (h : parseWith wide goal source = .ok arena) (hmax : 1 ≤ maxRounds)
    (hs : ((Rule.toFixedPoint [rule] maxRounds arena.root).after arena).size ≤ NodeId.maxIndex) :
    (maxRounds = 1 ∧ (arena.spans arena.root).HasParenthesizedLiteral ∧
      arena.fold [rule] maxRounds = .error (.noFixedPoint 1)) ∨
    (¬ (maxRounds = 1 ∧ (arena.spans arena.root).HasParenthesizedLiteral) ∧
      ∃ folded, arena.fold [rule] maxRounds = .ok folded) := by
  obtain ⟨tree, -, hholds⟩ := holds_of_parseWith h
  have hwhole := whole_of_parseWith h
  have hl := hholds.built.linked
  obtain ⟨node, hn⟩ := contains_iff.1 hholds.rooted
  have hcheck := checkFoldRoot_eq_ok hl hn (.inl rfl)
  have hhole := hwhole.complete.hasHole
  have hrule : ∀ r ∈ [rule], r = rule := fun r hr => List.mem_singleton.1 hr
  obtain ⟨more, rfl⟩ := Nat.exists_eq_add_of_le' hmax
  rw [← Tree.redexes_pos_iff]
  rcases Nat.eq_zero_or_pos (arena.spans arena.root).redexes with hredexes | hredexes
  · obtain ⟨text, hfold⟩ := hwhole.exists_fold hrule
      (run_toFixedPoint_of_eq_zero hl hn (.inl rfl) hredexes hhole more)
    exact .inr ⟨by omega, _, hfold⟩
  · obtain ⟨new, arena', -, hone, htwo, -⟩ := run_toFixedPoint_of_pos hl hn (.inl rfl) hredexes
      hhole (Nat.le_trans (size_after_rewrite_le hcheck) hs)
    -- the first round does all there is to do, but only a second one can tell
    cases more with
    | zero =>
      refine .inl ⟨rfl, hredexes, ?_⟩
      rw [fold, hone]
    | succ more =>
      obtain ⟨text, hfold⟩ := hwhole.exists_fold hrule (htwo more)
      exact .inr ⟨by omega, _, hfold⟩

end Arena

/-! ## Folding a source text -/

namespace FoldOptions

open ParenthesizedLiteral

variable {options : FoldOptions} {source path : String} {error : CommandError}

/-- There are handles for the nodes that folding a source text allocates. -/
def HasRoom (options : FoldOptions) (source : String) : Prop :=
  ∀ arena rules, Arena.parse .compilationUnit source = .ok arena →
    Catalogue.rulesWithout options.disabled = .ok rules →
      ((Rule.toFixedPoint rules options.maxRounds arena.root).after arena).size ≤ NodeId.maxIndex

/-- Why a source text is not folded. Each reason is given under the condition that there is none of
those before it. -/
inductive Refuses (options : FoldOptions) (source path : String) : CommandError → Prop where
  /-- The text does not parse. -/
  | malformed {error : ParseError} (h : Arena.parse .compilationUnit source = .error error) :
    Refuses options source path (.parse path (error.position source) error)
  /-- A rule is disabled that there is not. -/
  | unregistered {arena : Arena} {unknown : String}
    (hparse : Arena.parse .compilationUnit source = .ok arena)
    (h : Catalogue.FirstUnknown options.disabled unknown) :
    Refuses options source path (.fold (.unknownRule unknown))
  /-- There is something to do, and no round to see that nothing is left. -/
  | unfinished {arena : Arena} (hparse : Arena.parse .compilationUnit source = .ok arena)
    (hdisabled : ∀ rule ∈ options.disabled, rule ∈ Catalogue.names)
    (hrounds : options.maxRounds = 1) (henabled : name ∉ options.disabled)
    (h : (arena.spans arena.root).HasParenthesizedLiteral) :
    Refuses options source path (.fold (.noFixedPoint 1))

/-- Folding a source text after it was parsed and the rules were chosen. -/
theorem foldSource_of_rules {arena : Arena} {rules : List Rule}
    (hparse : Arena.parse .compilationUnit source = .ok arena)
    (hrules : Catalogue.rulesWithout options.disabled = .ok rules) :
    foldSource source path options = (arena.fold rules options.maxRounds).mapError .fold := by
  rw [foldSource, hparse, hrules]
  rfl

private theorem foldSource_of_malformed {error : ParseError}
    (h : Arena.parse .compilationUnit source = .error error) :
    foldSource source path options = .error (.parse path (error.position source) error) := by
  rw [foldSource, h]
  rfl

private theorem foldSource_of_unknown {arena : Arena} {error : FoldError}
    (hparse : Arena.parse .compilationUnit source = .ok arena)
    (h : Catalogue.rulesWithout options.disabled = .error error) :
    foldSource source path options = .error (.fold error) := by
  rw [foldSource, hparse, h]
  rfl

/-- A reason not to fold a source text decides the error. -/
theorem Refuses.foldSource_eq (h : options.Refuses source path error)
    (hroom : options.HasRoom source) : foldSource source path options = .error error := by
  cases h with
  | malformed h => exact foldSource_of_malformed h
  | unregistered hparse h =>
    exact foldSource_of_unknown hparse (Catalogue.rulesWithout_eq_error.2 ⟨_, h, rfl⟩)
  | @unfinished arena hparse hdisabled hrounds henabled h =>
    have hrules : Catalogue.rulesWithout options.disabled = .ok [rule] :=
      Catalogue.rulesWithout_eq_ok.2 ⟨hdisabled, (if_neg henabled).symm⟩
    rw [foldSource_of_rules hparse hrules]
    rcases Arena.fold_rule_cases hparse hrounds.ge (hroom arena _ hparse hrules) with
      ⟨-, -, hfold⟩ | ⟨hnot, -⟩
    · rw [hfold]
      rfl
    · exact absurd ⟨hrounds, h⟩ hnot

/-- Without such a reason a source text is folded. -/
theorem exists_foldSource_or_refuses (hrounds : 1 ≤ options.maxRounds)
    (hroom : options.HasRoom source) (path : String) :
    (∃ folded, foldSource source path options = .ok folded) ∨
      ∃ error, options.Refuses source path error := by
  cases hparse : Arena.parse .compilationUnit source with
  | error error => exact .inr ⟨_, .malformed hparse⟩
  | ok arena =>
    cases hrules : Catalogue.rulesWithout options.disabled with
    | error error =>
      obtain ⟨unknown, hfirst, rfl⟩ := Catalogue.rulesWithout_eq_error.1 hrules
      exact .inr ⟨_, .unregistered hparse hfirst⟩
    | ok rules =>
      have hsize := hroom arena rules hparse hrules
      rw [foldSource_of_rules hparse hrules]
      obtain ⟨hknown, rfl⟩ := Catalogue.rulesWithout_eq_ok.1 hrules
      by_cases hname : name ∈ options.disabled
      · rw [if_pos hname]
        obtain ⟨folded, hfold⟩ := Arena.exists_fold_nil hparse hrounds
        exact .inl ⟨folded, by rw [hfold]; rfl⟩
      · rw [if_neg hname] at hsize ⊢
        rcases Arena.fold_rule_cases hparse hrounds hsize with
          ⟨hone, hliteral, -⟩ | ⟨-, folded, hfold⟩
        · exact .inr ⟨_, .unfinished hparse hknown hone hname hliteral⟩
        · exact .inl ⟨folded, by rw [hfold]; rfl⟩

/-- Folding a source text fails exactly for such a reason. -/
theorem foldSource_eq_error (hrounds : 1 ≤ options.maxRounds) (hroom : options.HasRoom source) :
    foldSource source path options = .error error ↔ options.Refuses source path error := by
  refine ⟨fun h => ?_, fun h => h.foldSource_eq hroom⟩
  rcases exists_foldSource_or_refuses hrounds hroom path with ⟨folded, hok⟩ | ⟨error', hrefuses⟩
  · cases h.symm.trans hok
  · cases h.symm.trans (hrefuses.foldSource_eq hroom)
    exact hrefuses

end FoldOptions

/-! ## Folding a file -/

namespace FileSystem

variable {σ κ : Type} (system : FileSystem σ κ) (options : FoldOptions) (state : σ)

/-- Why a file is not folded. Each reason is given under the condition that there is none of those
before it. -/
inductive Refuses (system : FileSystem σ κ) (options : FoldOptions) (state : σ) :
    CommandError → Prop where
  /-- The input cannot be read. -/
  | unreadable {failure : FileFailure}
    (h : ((system.access.read options.input).run state).1 = .error failure) :
    Refuses system options state (.unreadable options.input failure)
  /-- The text of the input is not folded. -/
  | unfolded {source : String} {error : CommandError}
    (hread : ((system.access.read options.input).run state).1 = .ok source)
    (h : options.Refuses source options.input error) : Refuses system options state error
  /-- The output cannot be written. -/
  | unwritable {source : String} {folded : Folded} {failure : FileFailure}
    (hread : ((system.access.read options.input).run state).1 = .ok source)
    (hfold : foldSource source options.input options = .ok folded)
    (h : ((system.access.write options.output folded.text).run state).1 = .error failure) :
    Refuses system options state (.unwritable options.output failure)

/-- A stage that succeeds is followed by the next ones, and one that fails by none. -/
theorem run_stage {ε α β : Type} (stage : StateM σ (Except ε α))
    (next : α → ExceptT ε (StateM σ) β) :
    (ExceptT.mk stage >>= next).run.run state =
      match stage.run state with
      | (.ok value, state) => (next value).run.run state
      | (.error error, state) => (.error error, state) := by
  change (stage >>= ExceptT.bindCont next).run state = _
  rw [StateT.run_bind]
  rcases stage.run state with ⟨_ | _, _⟩ <;> rfl

/-- Folding a file, stage by stage. -/
theorem run_foldFile :
    (foldFile system.access options).run.run state =
      match ((system.access.read options.input).run state).1 with
      | .error failure => (.error (.unreadable options.input failure), state)
      | .ok source =>
        match foldSource source options.input options with
        | .error error => (.error error, state)
        | .ok folded =>
          match (system.access.write options.output folded.text).run state with
          | (.error failure, state) => (.error (.unwritable options.output failure), state)
          | (.ok (), state) => (.ok folded.report, state) := by
  have hread : (system.access.read options.input).run state =
      (((system.access.read options.input).run state).1, state) :=
    Prod.ext rfl (system.read_keeps state options.input)
  rw [foldFile, run_stage, StateT.run_bind, hread]
  cases ((system.access.read options.input).run state).1 with
  | error failure => rfl
  | ok source =>
    refine (run_stage state _ _).trans ?_
    simp only [StateT.run_pure]
    cases foldSource source options.input options with
    | error error => rfl
    | ok folded =>
      refine (run_stage state _ _).trans ?_
      simp only [StateT.run_bind]
      rcases (system.access.write options.output folded.text).run state with ⟨_ | _, _⟩ <;> rfl

variable {system options state} {report : Report} {error : CommandError} {after : σ}

/-- A reason not to fold a file decides the error, and nothing changes. -/
theorem Refuses.run_foldFile (h : system.Refuses options state error)
    (hroom : ∀ source, ((system.access.read options.input).run state).1 = .ok source →
      options.HasRoom source) :
    (foldFile system.access options).run.run state = (.error error, state) := by
  cases h with
  | unreadable h => rw [FileSystem.run_foldFile, h]
  | unfolded hread h =>
    rw [FileSystem.run_foldFile, hread]
    simp only [h.foldSource_eq (hroom _ hread)]
  | @unwritable source folded failure hread hfold h =>
    have hwrite : (system.access.write options.output folded.text).run state =
        (.error failure, state) := Prod.ext h (system.write_keeps h)
    rw [FileSystem.run_foldFile, hread]
    simp only [hfold, hwrite]

/-- Without such a reason a file is folded. -/
theorem exists_foldFile_or_refuses (hrounds : 1 ≤ options.maxRounds)
    (hroom : ∀ source, ((system.access.read options.input).run state).1 = .ok source →
      options.HasRoom source) :
    (∃ report after, (foldFile system.access options).run.run state = (.ok report, after)) ∨
      ∃ error, system.Refuses options state error := by
  rw [run_foldFile]
  cases hread : ((system.access.read options.input).run state).1 with
  | error failure => exact .inr ⟨_, .unreadable hread⟩
  | ok source =>
    simp only
    cases hfold : foldSource source options.input options with
    | error error =>
      exact .inr ⟨error, .unfolded hread
        ((FoldOptions.foldSource_eq_error hrounds (hroom source hread)).1 hfold)⟩
    | ok folded =>
      simp only
      cases hwrite : (system.access.write options.output folded.text).run state with
      | mk result after =>
        cases result with
        | ok => exact .inl ⟨folded.report, after, rfl⟩
        | error failure =>
          exact .inr ⟨_, .unwritable hread hfold (congrArg Prod.fst hwrite)⟩

/-- A file that is folded was read, its text was folded, and the result was written. -/
theorem stages_of_run_foldFile
    (h : (foldFile system.access options).run.run state = (.ok report, after)) :
    ∃ source text, ((system.access.read options.input).run state).1 = .ok source ∧
      foldSource source options.input options = .ok ⟨text, report⟩ ∧
      (system.access.write options.output text).run state = (.ok (), after) := by
  rw [run_foldFile] at h
  split at h
  next => cases h
  next source hread =>
    split at h
    next => cases h
    next folded hfold =>
      split at h
      next => cases h
      next hwrite =>
        cases h
        exact ⟨source, folded.text, hread, hfold, hwrite⟩

/-- Folding a file, in any system of files. If it succeeds, the text found at the place of the
output is the folded text of the input, which may be at the same place, and every other place is as
it was. If it fails, nothing has changed. It fails exactly if the input cannot be read, or its text
does not parse, or a rule is disabled that there is not, or a literal stands in parentheses in the
parsed tree and is to be folded in a single round, or the output cannot be written; the first of
these decides the error. -/
theorem foldFile_contract (system : FileSystem σ κ) (options : FoldOptions) (state : σ)
    (hrounds : 1 ≤ options.maxRounds)
    (hroom : ∀ source, ((system.access.read options.input).run state).1 = .ok source →
      options.HasRoom source) :
    (∀ report after, (foldFile system.access options).run.run state = (.ok report, after) →
      ∃ source text input output, system.place? state options.input = some input ∧
        system.find? state input = some (.text source) ∧
        foldSource source options.input options = .ok ⟨text, report⟩ ∧
        system.place? state options.output = some output ∧
        system.find? after output = some (.text text) ∧
        ∀ other, other ≠ output → system.find? after other = system.find? state other) ∧
    (∀ error after, (foldFile system.access options).run.run state = (.error error, after) →
      after = state) ∧
    ∀ error, (∃ after, (foldFile system.access options).run.run state = (.error error, after)) ↔
      system.Refuses options state error := by
  -- a run has one outcome, so its error is the one of the reason that there is
  have hrefused {error : CommandError} {after : σ}
      (h : (foldFile system.access options).run.run state = (.error error, after)) :
      after = state ∧ system.Refuses options state error := by
    rcases exists_foldFile_or_refuses hrounds hroom with ⟨report, after', hok⟩ | ⟨error', hrefuses⟩
    · cases h.symm.trans hok
    · cases h.symm.trans (hrefuses.run_foldFile hroom)
      exact ⟨rfl, hrefuses⟩
  refine ⟨fun report after h => ?_, fun error after h => (hrefused h).1, fun error => ?_⟩
  · obtain ⟨source, text, hread, hfold, hwrite⟩ := stages_of_run_foldFile h
    obtain ⟨input, hinput, hsource⟩ := system.read_found hread
    obtain ⟨output, houtput, htext, hothers⟩ := system.write_found (congrArg Prod.fst hwrite)
    rw [hwrite] at htext hothers
    exact ⟨source, text, input, output, hinput, hsource, hfold, houtput, htext, hothers⟩
  · exact ⟨fun ⟨_, h⟩ => (hrefused h).2, fun h => ⟨state, h.run_foldFile hroom⟩⟩

/-- A file with a parenthesized literal, folded into itself: in two rounds it is replaced by the
folded text, and after a single round it is left as it was. -/
theorem foldFile_contract_in_place :
    ∃ store : FileStore, store.find? ["a"] = some (.text "class A \x7b int x = (1); \x7d") ∧
      (∃ report after,
        (foldFile FileStore.system.access ⟨"a", "a", 2, [], false⟩).run.run store =
          (.ok report, after) ∧
        after.find? ["a"] = some (.text "class A \x7b\n    int x = 1;\n\x7d\n")) ∧
      (foldFile FileStore.system.access ⟨"a", "a", 1, [], false⟩).run.run store =
        (.error (.fold (.noFixedPoint 1)), store) ∧
      FileStore.system.Refuses ⟨"a", "a", 1, [], false⟩ store (.fold (.noFixedPoint 1)) := by
  obtain ⟨store, hstore⟩ : ∃ store : FileStore,
    store = ⟨[(["a"], .text "class A \x7b int x = (1); \x7d")], []⟩ := ⟨_, rfl⟩
  have hsplit : "a".splitOn "/" = ["a"] := by
    rw [String.splitOn, if_neg (by decide), String.splitOnAux, if_neg (by decide),
      if_neg (by decide), String.splitOnAux, if_pos (by decide)]
    decide
  have hpath : Path.parse "a" = .ok ⟨false, ["a"], false⟩ := by
    rw [Path.parse, hsplit]
    rfl
  have hplace : FileStore.system.place? store "a" = some ["a"] := by
    rw [hstore]
    exact FileStore.place?_eq_some hpath rfl
  have hread : ((FileStore.system.access.read "a").run store).1 =
      .ok "class A \x7b int x = (1); \x7d" := by
    change store.read "a" = _
    rw [FileStore.read, hpath, hstore]
    rfl
  have hwrite (text : String) : (FileStore.system.access.write "a" text).run store =
      (.ok (), ⟨[(["a"], .text text)], []⟩) := by
    change (FileStore.access.write "a" text).run store = _
    rw [FileStore.run_write, FileStore.write, FileStore.writable, hpath, hstore]
    rfl
  have hroom (maxRounds : Nat) (hmax : maxRounds = 1 ∨ maxRounds = 2) (source : String)
      (h : ((FileStore.system.access.read "a").run store).1 = .ok source) :
      FoldOptions.HasRoom ⟨"a", "a", maxRounds, [], false⟩ source := by
    have hsmall : (match Arena.parse .compilationUnit "class A \x7b int x = (1); \x7d" with
        | .ok arena => decide (((Rule.toFixedPoint [ParenthesizedLiteral.rule] maxRounds
            arena.root).after arena).size ≤ NodeId.maxIndex)
        | .error _ => true) = true := by
      rcases hmax with rfl | rfl <;> decide +kernel
    cases hread.symm.trans h
    rintro arena _ hparse ⟨⟩
    rw [hparse] at hsmall
    exact of_decide_eq_true hsmall
  have hfolded : foldSource "class A \x7b int x = (1); \x7d" "a" ⟨"a", "a", 2, [], false⟩ =
      .ok ⟨"class A \x7b\n    int x = 1;\n\x7d\n", ⟨⟨8⟩, 2, [("parenthesized-literal", 1)]⟩⟩ := by
    decide +kernel
  have hunfinished : foldSource "class A \x7b int x = (1); \x7d" "a" ⟨"a", "a", 1, [], false⟩ =
      .error (.fold (.noFixedPoint 1)) := by
    decide +kernel
  have htwo := run_foldFile FileStore.system ⟨"a", "a", 2, [], false⟩ store
  have hone := run_foldFile FileStore.system ⟨"a", "a", 1, [], false⟩ store
  simp only [hread, hfolded, hwrite, hunfinished] at htwo hone
  obtain ⟨hdone, -, -⟩ := foldFile_contract FileStore.system ⟨"a", "a", 2, [], false⟩ store
    (by decide) (hroom 2 (.inr rfl))
  obtain ⟨-, -, hrefused⟩ := foldFile_contract FileStore.system ⟨"a", "a", 1, [], false⟩ store
    (by decide) (hroom 1 (.inl rfl))
  obtain ⟨_, _, input, output, hinput, hsource, htext, houtput, hfound, -⟩ := hdone _ _ htwo
  cases hplace.symm.trans hinput
  cases hplace.symm.trans houtput
  have hfile : store.find? ["a"] = some (.text "class A \x7b int x = (1); \x7d") := by
    rw [hstore]
    rfl
  cases hfile.symm.trans hsource
  cases hfolded.symm.trans htext
  exact ⟨store, hfile, ⟨_, _, htwo, hfound⟩, hone, (hrefused _).1 ⟨store, hone⟩⟩

end FileSystem

end JavaFold
