import JavaFold.Proofs.Grammar.Front

/-!
# Names, modifiers and types are read back

A production that is given the words of a tree of its class and words that do not continue them
gives the tree, without places, and leaves the other words.
-/

namespace JavaFold

@[simp] theorem Tree.bare_absent {ι : Type} : (.absent : Tree ι).bare = .absent := rfl

/-- The places of a tree are forgotten node by node. -/
theorem Tree.bare_node {ι : Type} (info : ι) (kind : NodeKind String (Tree ι)) :
    (Tree.node info kind).bare = .node .nowhere (kind.map id Tree.bare) :=
  Tree.mapInfo_node _ info kind

namespace Grammar

open Cursor

variable {rest : List Word} {name type : SourceTree}

@[simp] theorem outcome_simpleName (text : String) (rest : List Word) :
    simpleName.outcome (reading (.identifier text :: rest)) =
      some (.node .nowhere (.simpleName text), reading rest) := by
  simp [simpleName, Word.text]

/-- A name is read by any step that adds a qualified name, as long as what follows the last
identifier allows it. -/
theorem IsName.loops {step : SourceTree → Parser Cursor (Option SourceTree)}
    (allowed : TokenKind → Prop)
    (hdot : allowed (.punctuator .dot))
    (hstep : ∀ q text rest, allowed (headKind rest) →
      (step q).outcome (reading (.punctuator .dot :: .identifier text :: rest)) =
        some (some (.node .nowhere (.qualifiedName q (.node .nowhere (.simpleName text)))),
          reading rest))
    (h : IsName name) (hrest : allowed (headKind rest)) :
    ∃ first ws, simpleName.outcome (reading (name.words ++ rest)) = some (first, reading ws) ∧
      Loops step first ws name.bare rest ∧ (headKind ws = .punctuator .dot ∨ ws = rest) := by
  induction h generalizing rest with
  | simple h =>
    obtain ⟨span, text⟩ := h
    exact ⟨_, rest, outcome_simpleName text rest, .refl, .inr rfl⟩
  | @qualified span qualifier name hq hn ih =>
    obtain ⟨span', text⟩ := hn
    obtain ⟨first, ws, hfirst, hl, hws⟩ := @ih (.punctuator .dot :: .identifier text :: rest) hdot
    refine ⟨first, ws, ?_, hl.snoc (hstep _ text rest hrest) (by grind), .inl ?_⟩
    · simpa [Tree.words] using hfirst
    · rcases hws with hws | rfl
      · exact hws
      · rfl

/-- A point and a word lengthen a name. -/
theorem outcome_qualifiedStep (q : SourceTree) (text : String) (rest : List Word) :
    (qualifiedStep .nowhere q).outcome
        (reading (.punctuator .dot :: .identifier text :: rest)) =
      some (some (.node .nowhere (.qualifiedName q (.node .nowhere (.simpleName text)))),
        reading rest) := by
  simp [qualifiedStep, Word.kind]

/-- A name ends where it cannot be lengthened. -/
theorem outcome_qualifiedStep_none (q : SourceTree) (h : StopsName rest) :
    (qualifiedStep .nowhere q).outcome (reading rest) = some (none, reading rest) := by
  have hstop : ¬ (headKind rest = .punctuator .dot ∧ headKind rest.tail = .identifier) :=
    fun hh => h hh.1 hh.2
  simp [qualifiedStep, hstop]

/-- A name is read back. -/
theorem outcome_name (h : IsName name) (rest : List Word) (hrest : StopsName rest) :
    Grammar.name.outcome (reading (name.words ++ rest)) = some (name.bare, reading rest) := by
  obtain ⟨first, ws, hfirst, hl, -⟩ := h.loops (fun _ => True) trivial
    (fun q text rest _ => outcome_qualifiedStep q text rest) trivial
  have := outcome_repeating_of_loops hl (outcome_qualifiedStep_none _ hrest)
  simp [Grammar.name, hfirst, this]

/-! ## Dimensions -/

/-- A pair of brackets makes a type an array of it. -/
theorem outcome_dimensionStep (component : SourceTree) (rest : List Word) :
    (dimensionStep .nowhere component).outcome
        (reading (.punctuator .lbracket :: .punctuator .rbracket :: rest)) =
      some (some (.node .nowhere (.arrayType component)), reading rest) := by
  simp [dimensionStep, Word.kind]

/-- A type ends where no pair of brackets follows. -/
theorem outcome_dimensionStep_none (component : SourceTree) (h : StopsDimensions rest) :
    (dimensionStep .nowhere component).outcome (reading rest) = some (none, reading rest) := by
  have hstop : ¬ (headKind rest = .punctuator .lbracket ∧
      headKind rest.tail = .punctuator .rbracket) := fun hh => h hh.1 hh.2
  simp [dimensionStep, hstop]

/-- A type is read as a type without dimensions that some dimensions follow. -/
theorem IsType.loops {allowVoid : Bool} (h : IsType allowVoid type) :
    ∃ element ds, IsElementType allowVoid element ∧ type.words = element.words ++ ds ∧
      (ds = [] ∧ type = element ∨
        headKind ds = .punctuator .lbracket ∧ headKind ds.tail = .punctuator .rbracket) ∧
      ∀ rest, Loops (dimensionStep .nowhere) element.bare (ds ++ rest) type.bare rest := by
  induction h with
  | @element type h => exact ⟨type, [], h, by simp, .inl ⟨rfl, rfl⟩, fun rest => .refl⟩
  | array span h ih =>
    obtain ⟨element, ds, he, hw, hds, hl⟩ := ih
    refine ⟨element, ds ++ [.punctuator .lbracket, .punctuator .rbracket], he, ?_, .inr ?_,
      fun rest => ?_⟩
    · rw [Tree.words, hw, List.append_assoc]
    · rcases hds with ⟨rfl, -⟩ | ⟨hd, hd'⟩
      · exact ⟨rfl, rfl⟩
      · match ds, hd, hd' with
        | _ :: _ :: _, hd, hd' => exact ⟨hd, hd'⟩
    · rw [List.append_assoc]
      exact (hl _).snoc (outcome_dimensionStep _ rest) (by grind)

/-- The pairs of brackets behind a type are all read. -/
theorem outcome_dimensions {element : SourceTree} {ds : List Word}
    (hl : Loops (dimensionStep .nowhere) element.bare (ds ++ rest) type.bare rest)
    (h : StopsDimensions rest) :
    (dimensions .nowhere element.bare).outcome (reading (ds ++ rest)) =
      some (type.bare, reading rest) :=
  outcome_repeating_of_loops hl (outcome_dimensionStep_none _ h)

/-- What does not continue a name does not do so after some dimensions. -/
theorem stopsName_dimensions {ds : List Word} (hds : ds = [] ∨ headKind ds = .punctuator .lbracket)
    (h : StopsName rest) : StopsName (ds ++ rest) := by
  rcases hds with rfl | hd
  · exact h
  · match ds, hd with
    | w :: ds, hd =>
      intro he
      rw [List.cons_append, headKind_cons, ← headKind_cons w ds, hd] at he
      cases he

/-- A type is read back. -/
theorem outcome_type {allowVoid : Bool} (h : IsType allowVoid type) (rest : List Word)
    (hn : StopsName rest)
    (hd : StopsDimensions rest) :
    (Grammar.type allowVoid).outcome (reading (type.words ++ rest)) =
      some (type.bare, reading rest) := by
  obtain ⟨element, ds, he, hw, hds, hl⟩ := h.loops
  have hdims := outcome_dimensions (hl rest) hd
  rw [hw, List.append_assoc]
  cases he with
  | @primitive span primitive hv =>
    have hvoid : ¬ (primitive = .void ∧ allowVoid = false) := by
      rintro ⟨he, hf⟩
      rw [hv he] at hf
      cases hf
    simp only [Grammar.type, Tree.words, List.singleton_append, outcome_bind, outcome_currentSpan,
      outcome_currentKind, headKind_cons, Word.kind, Option.bind_some]
    simp only [Bool.and_eq_true, decide_eq_true_eq, Bool.not_eq_true', if_neg hvoid, primitiveType,
      outcome_bind, outcome_advance, Option.bind_some, outcome_build]
    exact hdims
  | @named span name hname =>
    obtain ⟨text, ws, hwords⟩ := hname.words_eq
    have hstop := stopsName_dimensions (hds.imp And.left And.left) hn
    have hread := outcome_name hname _ hstop
    have hhead : headKind (name.words ++ (ds ++ rest)) = .identifier := by rw [hwords]; rfl
    simp only [Grammar.type, Tree.words, outcome_bind, outcome_currentSpan, outcome_currentKind,
      hhead, hread, Option.bind_some, outcome_node, merge_nowhere]
    exact hdims

/-! ## Modifiers -/

private theorem loops_modifiers (ms : List Modifier) (modifiers : Modifiers) (rest : List Word) :
    Loops modifierStep modifiers
      (ms.map (fun m => Word.keyword (.modifier m)) ++ rest) (ms.foldl .insert modifiers) rest := by
  induction ms generalizing modifiers with
  | nil => exact .refl
  | cons m ms ih =>
    refine .head ?_ ?_ (ih (modifiers.insert m))
    · simp [modifierStep, Word.kind]
    · simp

/-- A set of modifiers is read back. -/
theorem outcome_modifiers (modifiers : Modifiers) (h : isModifier (headKind rest) = false) :
    Grammar.modifiers.outcome (reading (modifiers.words ++ rest)) =
      some (modifiers, reading rest) := by
  have hl := loops_modifiers modifiers.toList .empty rest
  rw [Modifiers.foldl_insert_toList] at hl
  refine outcome_repeating_of_loops hl ?_
  simp only [modifierStep, outcome_bind, outcome_currentKind, Option.bind_some]
  split
  next hm => simp [hm, isModifier] at h
  next => rfl

end Grammar

end JavaFold
