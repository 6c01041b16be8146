import JavaFold.Layout
import JavaFold.Proofs.Token.Cut

/-!
# Layouts of words

A layout lays out words if its texts are those of the words, in order, and two texts that no blank
separates may stand next to each other (`Laid`). The text of such a layout is cut into the words
again (`Laid.cuts`). A layout that a line end closes can be gone on with by anything (`Closed`).
-/

namespace JavaFold

/-- A word can be followed by what is laid out after it. An indentation may be empty, so it does not
count as a blank. -/
def Word.Joins (w : Word) : List Mark → List Word → Prop
  | .text _ :: _, v :: _ => w.abuts v = true
  | .indent _ :: marks, ws => w.Joins marks ws
  | .space :: _, _ | .newline :: _, _ | [], _ => True
  | _, _ => False

/-- Marks that consist of the texts of words and of blanks. -/
inductive Laid : List Mark → List Word → Prop where
  | nil : Laid [] []
  | space {marks : List Mark} {ws : List Word} (h : Laid marks ws) : Laid (.space :: marks) ws
  | newline {marks : List Mark} {ws : List Word} (h : Laid marks ws) : Laid (.newline :: marks) ws
  | indent (level : Nat) {marks : List Mark} {ws : List Word} (h : Laid marks ws) :
    Laid (.indent level :: marks) ws
  | word (w : Word) {marks : List Mark} {ws : List Word} (h : Laid marks ws)
    (hj : w.Joins marks ws) : Laid (.text w.text :: marks) (w :: ws)

/-- Marks after which anything can be laid out. -/
def Closed (marks : List Mark) (ws : List Word) : Prop :=
  ∀ marks' ws', Laid marks' ws' → Laid (marks ++ marks') (ws ++ ws')

/-- Words the last of which closes what stands before it. -/
def EndsClosed (ws : List Word) : Prop :=
  ∀ w ∈ ws.getLast?, w.closes = true

section

variable {marks marks' : List Mark} {ws ws' : List Word}

/-- A word by itself is laid out as its text. -/
theorem laid_text (w : Word) : Laid [.text w.text] [w] :=
  .word w .nil trivial

/-- What may follow a word at once may go on with anything that may follow it. -/
theorem Word.Joins.append {w : Word} (hj : w.Joins marks ws) (h : Laid marks ws)
    (hend : ws = [] → w.Joins marks' ws') : w.Joins (marks ++ marks') (ws ++ ws') := by
  induction h with
  | nil => exact hend rfl
  | space | newline => trivial
  | indent level h ih => exact ih hj hend
  | word v h hv => exact hj

/-- Two layouts may stand one after the other if the first ends with a word that the second may
follow at once. -/
theorem Laid.append (h : Laid marks ws) (h' : Laid marks' ws')
    (hj : ∀ w ∈ ws.getLast?, w.Joins marks' ws') : Laid (marks ++ marks') (ws ++ ws') := by
  induction h with
  | nil => exact h'
  | space h ih => exact .space (ih hj)
  | newline h ih => exact .newline (ih hj)
  | indent level h ih => exact .indent level (ih hj)
  | @word w marks ws h hw ih =>
    have htail : ∀ v ∈ ws.getLast?, v.Joins marks' ws' := by
      intro v hv
      refine hj v ?_
      rw [List.getLast?_cons, Option.mem_def.mp hv]
      rfl
    refine .word w (ih htail) (hw.append h fun hnil => ?_)
    subst hnil
    exact hj w rfl

/-- A layout that a line break follows is closed. -/
theorem Laid.closed (h : Laid marks ws) : Closed (marks ++ [.newline]) ws := by
  intro marks' ws' h'
  rw [List.append_assoc]
  exact h.append (.newline h') fun _ _ => trivial

/-- A closed layout is a layout: nothing that follows runs into it. -/
theorem Closed.laid (h : Closed marks ws) : Laid marks ws := by
  have := h [] [] .nil
  rwa [List.append_nil, List.append_nil] at this

theorem closed_nil : Closed [] [] := fun _ _ h => h

/-- Closed layouts may stand one after the other. -/
theorem Closed.append (h : Closed marks ws) (h' : Closed marks' ws') :
    Closed (marks ++ marks') (ws ++ ws') := by
  intro marks'' ws'' h''
  rw [List.append_assoc, List.append_assoc]
  exact h _ _ (h' _ _ h'')

/-- A closed layout may be indented. -/
theorem Closed.indent (level : Nat) (h : Closed marks ws) : Closed (.indent level :: marks) ws :=
  fun _ _ h' => .indent level (h _ _ h')

/-- A closed layout may start on a new line. -/
theorem Closed.newline (h : Closed marks ws) : Closed (.newline :: marks) ws :=
  fun _ _ h' => .newline (h _ _ h')

/-- Anything can follow a punctuator that nothing goes on with. -/
theorem joins_of_isSolid {p : Punctuator} (hp : p.isSolid = true) (h : Laid marks ws) :
    (Word.punctuator p).Joins marks ws := by
  induction h with
  | nil | space | newline => trivial
  | indent level h ih => exact ih
  | word w h hj => exact Word.abuts_of_isSolid hp w

/-- A punctuator without a point can follow words that close what stands before them. -/
theorem EndsClosed.joins (h : EndsClosed ws) {q : Punctuator}
    (hq : (q != .dot && q != .ellipsis) = true) {text : String} :
    ∀ w ∈ ws.getLast?, w.Joins (.text text :: marks') (.punctuator q :: ws') :=
  fun w hw => Word.abuts_of_closes (h w hw) hq

/-- Words end closed if the last one does. -/
theorem endsClosed_concat {w : Word} (h : w.closes = true) (ws : List Word) :
    EndsClosed (ws ++ [w]) := by
  intro v hv
  rw [List.getLast?_concat] at hv
  cases hv
  exact h

/-- Words end as the last of them do. -/
theorem EndsClosed.append (h : EndsClosed ws) (h' : EndsClosed ws') : EndsClosed (ws ++ ws') := by
  intro w hw
  rw [List.getLast?_append, Option.mem_def, Option.or_eq_some_iff] at hw
  rcases hw with hw | ⟨-, hw⟩
  · exact h' w hw
  · exact h w hw

/-- A word put before others changes nothing at their end. -/
theorem EndsClosed.cons (h : EndsClosed ws) (hne : ws ≠ []) (w : Word) : EndsClosed (w :: ws) := by
  intro v hv
  rw [← List.singleton_append, List.getLast?_append_of_ne_nil _ hne] at hv
  exact h v hv

/-! ## The text of a layout -/

/-- The text of a mark stands before the text of the others. -/
theorem render?_cons {mark : Mark} {written text : String} (hm : mark.written? = some written)
    (h : Mark.render? marks = some text) :
    Mark.render? (mark :: marks) = some (written ++ text) := by
  rw [Mark.render?, Option.map_eq_some_iff] at h
  obtain ⟨texts, ht, rfl⟩ := h
  rw [Mark.render?, List.mapM_cons, hm, ht, ← String.join_cons]
  rfl

private theorem render?_cons_eq_some {mark : Mark} {text : String}
    (h : Mark.render? (mark :: marks) = some text) :
    ∃ written rest, mark.written? = some written ∧ Mark.render? marks = some rest ∧
      text.toList = written.toList ++ rest.toList := by
  rw [Mark.render?, List.mapM_cons, Option.map_eq_some_iff] at h
  obtain ⟨_, h, rfl⟩ := h
  obtain ⟨written, hm, h⟩ := Option.bind_eq_some_iff.mp h
  obtain ⟨texts, ht, h⟩ := Option.bind_eq_some_iff.mp h
  cases h
  exact ⟨written, String.join texts, hm, by rw [Mark.render?, ht, Option.map_some],
    by rw [String.join_cons, String.toList_append]⟩

/-- Marks one after the other are written one after the other. -/
theorem render?_append (marks marks' : List Mark) :
    Mark.render? (marks ++ marks') = (Mark.render? marks).bind fun text =>
      (Mark.render? marks').map fun text' => text ++ text' := by
  rw [Mark.render?, Mark.render?, Mark.render?, List.mapM_append]
  cases marks.mapM Mark.written? with
  | none => rfl
  | some texts =>
    cases marks'.mapM Mark.written? with
    | none => rfl
    | some texts' => exact congrArg some String.join_append

private theorem toList_pushn (c : Char) (n : Nat) : ("".pushn c n).toList = List.replicate n c := by
  rw [String.pushn_eq_repeat_push]
  induction n with
  | zero => rfl
  | succ n ih => rw [Nat.repeat, String.toList_push, ih, List.replicate_succ']

private theorem cuts_replicate {wide : Char → Bool} {input : List Char} (n : Nat)
    (h : Lexer.Cuts wide input ws) : Lexer.Cuts wide (List.replicate n ' ' ++ input) ws := by
  induction n with
  | zero => exact h
  | succ n ih => exact .blank rfl ih

/-- What follows a word that joins it does not go on with it. -/
theorem Word.Joins.endsBefore {wide : Char → Bool} {w : Word} {text : String}
    (hj : w.Joins marks ws) (h : Laid marks ws) (hws : ∀ v ∈ ws, Lexer.Lexeme wide v)
    (ht : Mark.render? marks = some text) :
    ∀ c ∈ text.toList.head?, Lexer.EndsBefore wide w c := by
  induction h generalizing text with
  | nil =>
    cases ht
    nofun
  | space | newline =>
    obtain ⟨_, rest, ⟨⟩, -, happ⟩ := render?_cons_eq_some ht
    rw [happ]
    rintro _ ⟨⟩
    exact Lexer.endsBefore_of_isBlank w rfl
  | indent level h ih =>
    obtain ⟨_, rest, ⟨⟩, hr, happ⟩ := render?_cons_eq_some ht
    rw [happ, toList_pushn]
    cases level * Mark.indentWidth with
    | zero => exact ih hj hws hr
    | succ n =>
      rintro _ ⟨⟩
      exact Lexer.endsBefore_of_isBlank w rfl
  | word v h hv =>
    obtain ⟨_, rest, ⟨⟩, -, happ⟩ := render?_cons_eq_some ht
    rw [happ]
    exact Lexer.endsBefore_of_abuts (hws v List.mem_cons_self) hj

/-- The text of a layout is cut into the words that are laid out. -/
theorem Laid.cuts {wide : Char → Bool} (h : Laid marks ws) (hws : ∀ w ∈ ws, Lexer.Lexeme wide w) :
    ∃ text, Mark.render? marks = some text ∧ Lexer.Cuts wide text.toList ws := by
  induction h with
  | nil => exact ⟨"", rfl, .nil⟩
  | space h ih =>
    obtain ⟨text, ht, hc⟩ := ih hws
    refine ⟨_, render?_cons rfl ht, ?_⟩
    rw [String.toList_append]
    exact .blank rfl hc
  | newline h ih =>
    obtain ⟨text, ht, hc⟩ := ih hws
    refine ⟨_, render?_cons rfl ht, ?_⟩
    rw [String.toList_append]
    exact .blank rfl hc
  | indent level h ih =>
    obtain ⟨text, ht, hc⟩ := ih hws
    refine ⟨_, render?_cons rfl ht, ?_⟩
    rw [String.toList_append, toList_pushn]
    exact cuts_replicate _ hc
  | word w h hj ih =>
    obtain ⟨hw, hws⟩ := List.forall_mem_cons.mp hws
    obtain ⟨text, ht, hc⟩ := ih hws
    refine ⟨_, render?_cons rfl ht, ?_⟩
    rw [String.toList_append]
    exact .word hw (hj.endsBefore h hws ht) hc

end

end JavaFold
