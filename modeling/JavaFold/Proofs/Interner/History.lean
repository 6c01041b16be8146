import Mathlib.Data.Finset.Card
import JavaFold.Proofs.Interner

/-!
# Handles over a history of texts

What is interned one after the other is kept in the order in which it first appears, behind the
empty text: a text that is new comes last, and nothing else changes. So no text is kept twice, and
the handles of a history are looked up alike whatever is interned later.

The handle of a text need not be searched for. A hash table of the handles can be kept beside the
texts (`Directory`); the two stay inverse to each other, and as long as there are handles left the
answers are those of the interner (`Directory.Inverse.exists_intern?`). Main statement:
`numbered_at_point`.
-/

namespace JavaFold

/-- The largest index that the handle of a text can have. -/
def Name.maxIndex : Nat := 4294967295

namespace Interner

variable {interner : Interner} {history before after : List String} {text : String}

/-- The interner after a history of texts. -/
def ofTexts (history : List String) : Interner :=
  history.foldl (fun interner text => (interner.intern text).2) initial

/-- The handle that is returned for a text after a history. -/
def handleAfter (history : List String) (text : String) : Name :=
  ((ofTexts history).intern text).1

/-! ## What one text changes -/

private theorem toList_texts_intern (interner : Interner) (text : String) :
    (interner.intern text).2.texts.toList = interner.texts.toList ∧ text ∈ interner.texts.toList ∨
      (interner.intern text).2.texts.toList = interner.texts.toList ++ [text] ∧
        text ∉ interner.texts.toList := by
  rcases interner.intern_cases text with ⟨index, hi, h⟩ | ⟨hnew, h⟩
  · exact .inl ⟨by rw [h], by simpa using Array.mem_of_getElem? hi⟩
  · exact .inr ⟨by rw [h, Array.toList_push], by simpa using hnew⟩

/-- The handle that is returned for a text is its place among the texts. -/
theorem getElem?_intern (interner : Interner) (text : String) :
    (interner.intern text).2.texts.toList[(interner.intern text).1.index]? = some text := by
  rcases interner.intern_cases text with ⟨index, hi, h⟩ | ⟨-, h⟩
  · simpa [h] using hi
  · simp [h, size]

private theorem intern_of_mem (h : text ∈ interner.texts.toList) :
    (interner.intern text).2 = interner := by
  rcases interner.intern_cases text with ⟨index, -, he⟩ | ⟨hnew, -⟩
  · rw [he]
  · exact absurd h (by simpa using hnew)

private theorem index_intern_of_not_mem (h : text ∉ interner.texts.toList) :
    (interner.intern text).1.index = interner.size := by
  rcases interner.intern_cases text with ⟨index, hi, -⟩ | ⟨-, he⟩
  · exact absurd (by simpa using Array.mem_of_getElem? hi) h
  · rw [he]

/-! ## What a history leaves -/

private theorem ofTexts_concat (history : List String) (text : String) :
    ofTexts (history ++ [text]) = ((ofTexts history).intern text).2 := by
  rw [ofTexts, List.foldl_append]
  rfl

/-- The texts of a history and the empty text are kept, and no others. -/
theorem mem_ofTexts : text ∈ (ofTexts history).texts.toList ↔ text ∈ "" :: history := by
  induction history using List.reverseRecOn with
  | nil => simp [ofTexts, initial]
  | append_singleton history last ih =>
    rw [ofTexts_concat, ← List.cons_append, List.mem_append, ← ih]
    rcases toList_texts_intern (ofTexts history) last with ⟨h, hlast⟩ | ⟨h, -⟩
    · rw [h, or_iff_left_of_imp]
      intro ht
      rwa [List.mem_singleton.1 ht]
    · rw [h, List.mem_append]

/-- No text is kept twice. -/
theorem nodup_ofTexts (history : List String) : (ofTexts history).texts.toList.Nodup := by
  induction history using List.reverseRecOn with
  | nil => simp [ofTexts, initial]
  | append_singleton history text ih =>
    rw [ofTexts_concat]
    rcases toList_texts_intern (ofTexts history) text with ⟨h, -⟩ | ⟨h, hnew⟩
    · rwa [h]
    · rw [h, ← List.concat_eq_append, List.nodup_concat]
      exact ⟨hnew, ih⟩

/-- What is interned later comes behind the texts that are there. -/
theorem ofTexts_front (before after : List String) :
    (ofTexts before).texts.toList <+: (ofTexts (before ++ after)).texts.toList := by
  induction after using List.reverseRecOn with
  | nil => rw [List.append_nil]
  | append_singleton after text ih =>
    rw [← List.append_assoc, ofTexts_concat]
    rcases toList_texts_intern (ofTexts (before ++ after)) text with ⟨h, -⟩ | ⟨h, -⟩
    · rwa [h]
    · rw [h]
      exact ih.trans (List.prefix_append _ _)

private theorem size_ofTexts (history : List String) :
    (ofTexts history).size = ("" :: history).toFinset.card := by
  have hset : (ofTexts history).texts.toList.toFinset = ("" :: history).toFinset := by
    ext text
    rw [List.mem_toFinset, List.mem_toFinset, mem_ofTexts]
  rw [← hset, List.toFinset_card_of_nodup (nodup_ofTexts history), Array.length_toList, size]

private theorem card_le_of_front (h : before <+: history) :
    before.toFinset.card ≤ history.toFinset.card := by
  refine Finset.card_le_card fun text ht => ?_
  rw [List.mem_toFinset] at ht ⊢
  exact h.subset ht

/-- There is a handle left for one more text. -/
theorem size_ofTexts_le (h : history.toFinset.card < Name.maxIndex) :
    (ofTexts history).size ≤ Name.maxIndex := by
  have hle := Finset.card_insert_le "" history.toFinset
  rw [size_ofTexts, List.toFinset_cons]
  omega

/-- A handle is the place of its text from when it is returned on. -/
theorem getElem?_handleAfter (before after : List String) (text : String) :
    (ofTexts (before ++ text :: after)).texts.toList[(handleAfter before text).index]? =
      some text := by
  have hplace := getElem?_intern (ofTexts before) text
  rw [← ofTexts_concat] at hplace
  obtain ⟨later, hlater⟩ := ofTexts_front (before ++ [text]) after
  rw [List.append_assoc, List.singleton_append] at hlater
  rw [← hlater, handleAfter, List.getElem?_append_left (List.getElem?_eq_some_iff.1 hplace).1]
  exact hplace

/-- A text has one place only. -/
theorem index_eq_of_getElem? {i j : Nat} (hi : (ofTexts history).texts.toList[i]? = some text)
    (hj : (ofTexts history).texts.toList[j]? = some text) : i = j :=
  (List.getElem?_inj (List.getElem?_eq_some_iff.1 hi).1 (nodup_ofTexts history)).1
    (hi.trans hj.symm)

private theorem getElem?_ofTexts_zero (history : List String) :
    (ofTexts history).texts.toList[0]? = some "" := by
  obtain ⟨later, h⟩ := ofTexts_front [] history
  rw [List.nil_append] at h
  rw [← h]
  rfl

end Interner

/-! ## A table of the handles -/

/-- Texts with their handles in both directions. -/
structure Directory where
  /-- The handles of the interned texts. -/
  handles : Std.HashMap String Name
  /-- The interned texts, in order of first appearance. -/
  texts : Array String

namespace Directory

variable {directory : Directory} {text : String}

/-- The handle of a text, which is interned if it was not. There is no answer to a new text when all
handles are in use. -/
def intern? (directory : Directory) (text : String) : Option (Name × Directory) :=
  match directory.handles[text]? with
  | some name => some (name, directory)
  | none =>
    if directory.texts.size ≤ Name.maxIndex then
      let name : Name := ⟨directory.texts.size⟩
      some (name, ⟨directory.handles.insert text name, directory.texts.push text⟩)
    else none

/-- The directory after a history of texts, the empty text being interned first. -/
def ofTexts? (history : List String) : Option Directory :=
  ("" :: history).foldlM (fun directory text => (directory.intern? text).map Prod.snd) ⟨∅, #[]⟩

/-- The handles and the texts are inverse to each other. -/
def Inverse (directory : Directory) : Prop :=
  ∀ (text : String) (name : Name),
    directory.handles[text]? = some name ↔ directory.texts[name.index]? = some text

private theorem inverse_empty : Inverse ⟨∅, #[]⟩ := by
  intro text name
  simp

/-- A new text is added to both sides at once. -/
theorem Inverse.push (h : directory.Inverse) (hnew : text ∉ directory.texts) :
    Inverse ⟨directory.handles.insert text ⟨directory.texts.size⟩, directory.texts.push text⟩ := by
  rintro text' ⟨index⟩
  rw [Std.HashMap.getElem?_insert, Array.getElem?_push]
  by_cases ht : text = text'
  · subst ht
    rw [if_pos (beq_self_eq_true text)]
    by_cases hi : index = directory.texts.size
    · simp [hi]
    · have hold : directory.texts[index]? ≠ some text := fun hold =>
        hnew (Array.mem_of_getElem? hold)
      simp [hi, hold, Ne.symm hi]
  · rw [if_neg (by simpa using ht), h text' ⟨index⟩]
    by_cases hi : index = directory.texts.size
    · simp [hi, ht]
    · simp [hi]

/-- As long as there are handles left, the answer is that of the interner, and both sides stay
inverse to each other. -/
theorem Inverse.exists_intern? (h : directory.Inverse)
    (hroom : directory.texts.size ≤ Name.maxIndex) (text : String) :
    ∃ next, directory.intern? text = some (((Interner.mk directory.texts).intern text).1, next) ∧
      next.Inverse ∧ next.texts = ((Interner.mk directory.texts).intern text).2.texts := by
  rcases (Interner.mk directory.texts).intern_cases text with ⟨index, hi, he⟩ | ⟨hnew, he⟩
  · have hfound : directory.handles[text]? = some ⟨index⟩ := (h text ⟨index⟩).2 hi
    refine ⟨directory, ?_, h, by rw [he]⟩
    rw [intern?, hfound, he]
  · have hmissing : directory.handles[text]? = none := by
      rw [Option.eq_none_iff_forall_ne_some]
      exact fun name hname => hnew (Array.mem_of_getElem? ((h text name).1 hname))
    refine ⟨_, ?_, h.push hnew, by rw [he]⟩
    rw [intern?, hmissing, he]
    exact if_pos hroom

private theorem ofTexts?_concat (history : List String) (text : String) :
    ofTexts? (history ++ [text]) =
      (ofTexts? history).bind fun directory => (directory.intern? text).map Prod.snd := by
  rw [ofTexts?, ← List.cons_append, List.foldlM_append]
  exact congrArg (ofTexts? history).bind (funext fun directory => bind_pure _)

/-- The directory after a history keeps the texts of the interner. -/
theorem exists_ofTexts? {history : List String} (h : history.toFinset.card < Name.maxIndex) :
    ∃ directory, ofTexts? history = some directory ∧ directory.Inverse ∧
      directory.texts = (Interner.ofTexts history).texts := by
  induction history using List.reverseRecOn with
  | nil =>
    obtain ⟨next, hnext, hinverse, htexts⟩ := inverse_empty.exists_intern? (Nat.zero_le _) ""
    refine ⟨next, ?_, hinverse, htexts.trans ?_⟩
    · simp [ofTexts?, hnext]
    · simp [Interner.intern, Interner.ofTexts, Interner.initial]
  | append_singleton history text ih =>
    have hcard := Nat.lt_of_le_of_lt (Interner.card_le_of_front (List.prefix_append _ _)) h
    obtain ⟨directory, hd, hinverse, htexts⟩ := ih hcard
    have hroom : directory.texts.size ≤ Name.maxIndex := by
      rw [htexts]
      exact Interner.size_ofTexts_le hcard
    obtain ⟨next, hnext, hinverse', htexts'⟩ := hinverse.exists_intern? hroom text
    refine ⟨next, ?_, hinverse', ?_⟩
    · rw [ofTexts?_concat, hd, Option.bind_some, hnext, Option.map_some]
    · rw [htexts', htexts, Interner.ofTexts_concat]

end Directory

/-! ## All handles of a history -/

namespace Interner

variable {history : List String}

/-- The texts of a history are numbered, each by a handle of its own. -/
structure Numbered (history : List String) : Prop where
  /-- The handle that was returned for a text is looked up as the text. -/
  lookup : ∀ before text after, history = before ++ text :: after →
    (ofTexts history).lookup (handleAfter before text) = text
  /-- Two handles that were returned are equal exactly if their texts are. -/
  equal : ∀ before text after before' text' after', history = before ++ text :: after →
    history = before' ++ text' :: after' →
      (handleAfter before text = handleAfter before' text' ↔ text = text')
  /-- Interning a text again changes nothing. -/
  again : ∀ text ∈ history, ((ofTexts history).intern text).2 = ofTexts history
  /-- The empty text is there and has the first handle. -/
  empty : (ofTexts history).intern "" = (.empty, ofTexts history)
  /-- The handles in use are those below the number of texts. -/
  inUse : ∀ name, name = .empty ∨
    (∃ before text after, history = before ++ text :: after ∧ handleAfter before text = name) ↔
      name.index < (ofTexts history).size
  /-- There are as many handles as distinct texts, the empty one included. -/
  size : (ofTexts history).size = ("" :: history).toFinset.card
  /-- A text that appears first is numbered by the distinct texts before it. -/
  order : ∀ before text after, history = before ++ text :: after → text ∉ "" :: before →
    (handleAfter before text).index = ("" :: before).toFinset.card
  /-- A table of the handles answers alike, and is the inverse of the texts. -/
  table : ∀ before after, history = before ++ after → ∃ directory,
    Directory.ofTexts? before = some directory ∧ directory.Inverse ∧
      directory.texts = (ofTexts before).texts ∧
      ∀ text, (directory.intern? text).map Prod.fst = some (handleAfter before text)

private theorem lookup_of_getElem? {name : Name} {text : String}
    (h : (ofTexts history).texts.toList[name.index]? = some text) :
    (ofTexts history).lookup name = text := by
  rw [Array.getElem?_toList] at h
  rw [lookup, Array.getD_eq_getD_getElem?, h, Option.getD_some]

private theorem intern_empty (history : List String) :
    (ofTexts history).intern "" = (.empty, ofTexts history) := by
  have hsame : ((ofTexts history).intern "").2 = ofTexts history :=
    intern_of_mem (mem_ofTexts.2 List.mem_cons_self)
  have hplace := getElem?_intern (ofTexts history) ""
  rw [hsame] at hplace
  refine Prod.ext ?_ hsame
  exact congrArg Name.mk (index_eq_of_getElem? hplace (getElem?_ofTexts_zero history))

/-- A handle is in use if it is that of the empty text or was returned for another one. -/
theorem inUse_iff (name : Name) :
    name = .empty ∨
      (∃ before text after, history = before ++ text :: after ∧ handleAfter before text = name) ↔
        name.index < (ofTexts history).size := by
  constructor
  · rintro (rfl | ⟨before, text, after, rfl, rfl⟩)
    · exact (List.getElem?_eq_some_iff.1 (getElem?_ofTexts_zero history)).1
    · exact (List.getElem?_eq_some_iff.1 (getElem?_handleAfter before after text)).1
  · intro hlt
    obtain ⟨text, hplace⟩ : ∃ text, (ofTexts history).texts.toList[name.index]? = some text :=
      ⟨_, List.getElem?_eq_getElem hlt⟩
    rcases List.mem_cons.1 (mem_ofTexts.1 (List.mem_of_getElem? hplace)) with rfl | hmem
    · exact .inl (congrArg Name.mk (index_eq_of_getElem? hplace (getElem?_ofTexts_zero history)))
    · obtain ⟨before, after, rfl⟩ := List.append_of_mem hmem
      exact .inr ⟨before, text, after, rfl,
        congrArg Name.mk (index_eq_of_getElem? (getElem?_handleAfter before after text) hplace)⟩

/-- After every history there is a directory with the texts of the interner, which returns the same
handles. -/
theorem exists_directory (h : history.toFinset.card < Name.maxIndex) :
    ∃ directory, Directory.ofTexts? history = some directory ∧ directory.Inverse ∧
      directory.texts = (ofTexts history).texts ∧
      ∀ text, (directory.intern? text).map Prod.fst = some (handleAfter history text) := by
  obtain ⟨directory, hd, hinverse, htexts⟩ := Directory.exists_ofTexts? h
  refine ⟨directory, hd, hinverse, htexts, fun text => ?_⟩
  have hroom : directory.texts.size ≤ Name.maxIndex := by
    rw [htexts]
    exact size_ofTexts_le h
  obtain ⟨next, hnext, -⟩ := hinverse.exists_intern? hroom text
  rw [hnext, htexts]
  rfl

/-- At every point of a history with fewer distinct texts than handles, the texts so far are
numbered in the order in which they first appeared. -/
theorem numbered_at_point (history point : List String)
    (h : history.toFinset.card < Name.maxIndex) (hpoint : point <+: history) :
    Numbered point := by
  refine ⟨?_, ?_, ?_, intern_empty point, inUse_iff, size_ofTexts point, ?_, ?_⟩
  · rintro before text after rfl
    exact lookup_of_getElem? (getElem?_handleAfter before after text)
  · intro before text after before' text' after' hsplit hsplit'
    have hplace := hsplit ▸ getElem?_handleAfter before after text
    have hplace' := hsplit' ▸ getElem?_handleAfter before' after' text'
    constructor
    · intro he
      rw [he] at hplace
      exact Option.some.inj (hplace.symm.trans hplace')
    · rintro rfl
      exact congrArg Name.mk (index_eq_of_getElem? hplace hplace')
  · intro text htext
    exact intern_of_mem (mem_ofTexts.2 (List.mem_cons_of_mem _ htext))
  · intro before text after _ hnew
    rw [← size_ofTexts]
    exact index_intern_of_not_mem (mt mem_ofTexts.1 hnew)
  · rintro before after rfl
    have hbefore := (List.prefix_append before after).trans hpoint
    exact exists_directory (Nat.lt_of_le_of_lt (card_le_of_front hbefore) h)

/-- A history in which texts return, the empty one among them. -/
theorem numbered_at_point_again :
    ["b", "", "a", "b"].toFinset.card < Name.maxIndex ∧ ["b", "", "a"] <+: ["b", "", "a", "b"] ∧
      Numbered ["b", "", "a"] ∧ handleAfter [] "b" = ⟨1⟩ ∧ handleAfter ["b"] "" = ⟨0⟩ ∧
      handleAfter ["b", ""] "a" = ⟨2⟩ ∧ handleAfter ["b", "", "a"] "b" = ⟨1⟩ := by
  have hcard : ["b", "", "a", "b"].toFinset.card < Name.maxIndex := by decide
  have hpoint : ["b", "", "a"] <+: ["b", "", "a", "b"] := ⟨["b"], rfl⟩
  exact ⟨hcard, hpoint, numbered_at_point _ _ hcard hpoint, by decide +kernel,
    by decide +kernel, by decide +kernel, by decide +kernel⟩

end Interner

end JavaFold
