import JavaFold.Proofs.Token.Tiling
import Mathlib.Data.List.DropRight

/-!
# Positions follow offsets

The position of an offset is that of the text before the last boundary of characters up to it: the
lines that end in the text are counted, and the characters after the last line end
(`Position.after`). So positions grow strictly from one boundary to a later one, and between two
neighbouring boundaries, or past the end, they stay the same. The boundary can be looked for from
the offset downwards (`Position.search?`), which never leads below the start of the source.
-/

namespace JavaFold

/-- The boundaries of characters are the lengths of the texts that a source starts with. -/
theorem isValid_iff_exists_front {source : String} {offset : Nat} :
    String.Pos.Raw.IsValid source ⟨offset⟩ ↔
      ∃ front back, source.toList = front ++ back ∧ byteLength front = offset := by
  rw [String.Pos.Raw.isValid_iff_exists_append]
  constructor
  · rintro ⟨front, back, rfl, hoffset⟩
    refine ⟨front.toList, back.toList, String.toList_append, ?_⟩
    rw [← utf8ByteSize_eq]
    exact (congrArg String.Pos.Raw.byteIdx hoffset).symm
  · rintro ⟨front, back, hsource, rfl⟩
    refine ⟨String.ofList front, String.ofList back, ?_, ?_⟩
    · rw [← String.ofList_append, ← hsource, String.ofList_toList]
    · rw [String.rawEndPos, utf8ByteSize_ofList]

theorem Span.le_of_slice? {span : Span} {source text : String}
    (h : span.slice? source = some text) : span.start ≤ span.stop := by
  unfold slice? at h
  split at h
  next hvalid => exact hvalid.1
  next => cases h

/-- Of two texts that a source starts with, the one that takes fewer bytes comes first. -/
theorem exists_between_of_byteLength_lt {front front' back back' : List Char}
    (h : front ++ back = front' ++ back') (hlt : byteLength front < byteLength front') :
    ∃ c between, front' = front ++ c :: between := by
  rcases List.append_eq_append_iff.1 h with ⟨between, rfl, -⟩ | ⟨between, rfl, -⟩
  · cases between with
    | nil => simp at hlt
    | cons c between => exact ⟨c, between, rfl⟩
  · rw [byteLength_append] at hlt
    omega

namespace Position

/-- Positions are compared line by line, and by their columns within a line. -/
instance : LT Position :=
  ⟨fun a b => a.line < b.line ∨ a.line = b.line ∧ a.column < b.column⟩

private theorem lt_iff {a b : Position} :
    a < b ↔ a.line < b.line ∨ a.line = b.line ∧ a.column < b.column :=
  Iff.rfl

private theorem lt_trans {a b c : Position} (h : a < b) (h' : b < c) : a < c := by
  rw [lt_iff] at *
  omega

/-- A character leads to a later position. -/
theorem lt_advance (position : Position) (c : Char) : position < position.advance c := by
  rw [lt_iff, advance]
  split
  · exact .inl (Nat.lt_succ_self _)
  · exact .inr ⟨rfl, Nat.lt_succ_self _⟩

private theorem lt_foldl_advance (position : Position) (c : Char) (chars : List Char) :
    position < (c :: chars).foldl advance position := by
  induction chars generalizing position c with
  | nil => exact lt_advance position c
  | cons d chars ih => exact lt_trans (lt_advance position c) (ih _ d)

/-- The position after a text: one more than the number of its line ends, and one more than the
number of characters after the last of them. -/
def after (before : List Char) : Position :=
  ⟨1 + before.count '\n', 1 + (before.rtakeWhile (· ≠ '\n')).length⟩

private theorem after_concat (before : List Char) (c : Char) :
    after (before ++ [c]) = (after before).advance c := by
  rw [after, after, advance, List.rtakeWhile_concat]
  by_cases hc : c = '\n'
  · subst hc
    simp [Nat.add_assoc]
  · simp [hc, Nat.add_assoc]

/-- Counting line ends and columns comes to the same as going on character by character. -/
theorem foldl_advance_origin (before : List Char) :
    before.foldl advance origin = after before := by
  induction before using List.reverseRecOn with
  | nil => rfl
  | append_singleton before c ih => rw [List.foldl_concat, ih, after_concat]

/-! ## The position of an offset -/

private theorem advanceBytes_append (position : Position) (front back : List Char) (bytes : Nat) :
    position.advanceBytes (byteLength front + bytes) (front ++ back) =
      (front.foldl advance position).advanceBytes bytes back := by
  induction front generalizing position with
  | nil => simp
  | cons c front ih =>
    have hbytes : c.utf8Size + byteLength front + bytes - c.utf8Size =
        byteLength front + bytes := by
      omega
    rw [List.cons_append, advanceBytes, byteLength_cons, if_pos (by omega), hbytes, ih,
      List.foldl_cons]

/-- Too few bytes for the next character lead nowhere. -/
theorem advanceBytes_eq_self (position : Position) {bytes : Nat} {chars : List Char}
    (h : ∀ c ∈ chars.head?, bytes < c.utf8Size) : position.advanceBytes bytes chars = position := by
  cases chars with
  | nil => rfl
  | cons c chars => rw [advanceBytes, if_neg (Nat.not_le.2 (h c rfl))]

variable {source : String} {front back : List Char} {offset : Nat}

/-- The position of an offset is that of the last boundary up to it. -/
theorem ofOffset_eq_after (h : source.toList = front ++ back) (hle : byteLength front ≤ offset)
    (hnext : ∀ c ∈ back.head?, offset < byteLength front + c.utf8Size) :
    ofOffset source offset = after front := by
  obtain ⟨bytes, rfl⟩ := Nat.exists_eq_add_of_le hle
  rw [ofOffset, h, advanceBytes_append, foldl_advance_origin]
  exact advanceBytes_eq_self _ fun c hc => Nat.lt_of_add_lt_add_left (hnext c hc)

private theorem ofOffset_boundary (h : source.toList = front ++ back) :
    ofOffset source (byteLength front) = after front :=
  ofOffset_eq_after h (Nat.le_refl _) fun c _ => Nat.lt_add_of_pos_right c.utf8Size_pos

/-- Every offset stands at the end of some text or inside the character that follows it. -/
theorem exists_front_of_offset (input : List Char) (offset : Nat) :
    ∃ front back, input = front ++ back ∧ byteLength front ≤ offset ∧
      ∀ c ∈ back.head?, offset < byteLength front + c.utf8Size := by
  induction input generalizing offset with
  | nil => exact ⟨[], [], rfl, Nat.zero_le _, nofun⟩
  | cons c input ih =>
    by_cases hc : c.utf8Size ≤ offset
    · obtain ⟨front, back, rfl, hle, hnext⟩ := ih (offset - c.utf8Size)
      refine ⟨c :: front, back, rfl, ?_, fun d hd => ?_⟩
      · rw [byteLength_cons]
        omega
      · have := hnext d hd
        rw [byteLength_cons]
        omega
    · refine ⟨[], c :: input, rfl, Nat.zero_le _, ?_⟩
      rintro _ ⟨⟩
      simpa using hc

private theorem ofOffset_lt_ofOffset {a b : Nat} (ha : String.Pos.Raw.IsValid source ⟨a⟩)
    (hb : String.Pos.Raw.IsValid source ⟨b⟩) (h : a < b) :
    ofOffset source a < ofOffset source b := by
  obtain ⟨front, back, hfront, rfl⟩ := isValid_iff_exists_front.1 ha
  obtain ⟨front', back', hfront', rfl⟩ := isValid_iff_exists_front.1 hb
  obtain ⟨c, between, rfl⟩ := exists_between_of_byteLength_lt (hfront ▸ hfront') h
  rw [ofOffset_boundary hfront, ofOffset_boundary hfront', ← foldl_advance_origin (front ++ _),
    List.foldl_append, foldl_advance_origin]
  exact lt_foldl_advance (after front) c between

/-! ## Looking for the boundary -/

/-- The last boundary of characters up to an offset, looked for one byte at a time. There is no
answer if the search comes to the start of the source and would go on. -/
def boundaryUpTo? (source : String) : Nat → Option Nat
  | 0 => if String.Pos.Raw.IsValid source ⟨0⟩ then some 0 else none
  | offset + 1 =>
    if String.Pos.Raw.IsValid source ⟨offset + 1⟩ then some (offset + 1)
    else boundaryUpTo? source offset

/-- The position of an offset, found by way of the last boundary up to it. An offset past the end
counts as the end. -/
def search? (source : String) (offset : Nat) : Option Position := do
  let boundary ← boundaryUpTo? source (min offset source.utf8ByteSize)
  let before ← (Span.mk 0 boundary).slice? source
  return after before.toList

private theorem boundaryUpTo?_of_isValid (h : String.Pos.Raw.IsValid source ⟨offset⟩) :
    boundaryUpTo? source offset = some offset := by
  cases offset <;> rw [boundaryUpTo?, if_pos h]

/-- No boundary stands inside a character. -/
theorem not_isValid_inside {c : Char} (h : source.toList = front ++ c :: back)
    (hlt : byteLength front < offset) (hnext : offset < byteLength front + c.utf8Size) :
    ¬ String.Pos.Raw.IsValid source ⟨offset⟩ := by
  intro hvalid
  obtain ⟨front', back', hfront', rfl⟩ := isValid_iff_exists_front.1 hvalid
  obtain ⟨d, between, rfl⟩ := exists_between_of_byteLength_lt (h ▸ hfront') hlt
  have happ : front ++ c :: back = front ++ d :: (between ++ back') := by
    rw [← h, hfront', List.append_assoc, List.cons_append]
  cases List.append_cancel_left happ
  rw [byteLength_append, byteLength_cons] at hnext
  omega

/-- The search leads from inside a character down to its start. -/
theorem boundaryUpTo?_inside {c : Char} (h : source.toList = front ++ c :: back) (more : Nat)
    (hmore : more < c.utf8Size) :
    boundaryUpTo? source (byteLength front + more) = some (byteLength front) := by
  induction more with
  | zero => exact boundaryUpTo?_of_isValid (isValid_iff_exists_front.2 ⟨front, _, h, rfl⟩)
  | succ more ih =>
    have hinside : ¬ String.Pos.Raw.IsValid source ⟨byteLength front + (more + 1)⟩ :=
      not_isValid_inside h (by omega) (by omega)
    rw [← Nat.add_assoc] at hinside ⊢
    rw [boundaryUpTo?, if_neg hinside]
    exact ih (by omega)

/-- The search finds the position that is reached by going on character by character. -/
theorem search?_eq (source : String) (offset : Nat) :
    search? source offset = some (ofOffset source offset) := by
  obtain ⟨front, back, h, hle, hnext⟩ := exists_front_of_offset source.toList offset
  have hsize : source.utf8ByteSize = byteLength front + byteLength back := by
    rw [utf8ByteSize_eq, h, byteLength_append]
  -- either nothing follows, and the offset is cut down to the end, or the next character holds it
  have hboundary : boundaryUpTo? source (min offset source.utf8ByteSize) =
      some (byteLength front) := by
    cases back with
    | nil =>
      have hmin : min offset source.utf8ByteSize = byteLength front := by
        rw [hsize, byteLength_nil]
        omega
      rw [hmin]
      exact boundaryUpTo?_of_isValid (isValid_iff_exists_front.2 ⟨front, [], h, rfl⟩)
    | cons c back =>
      obtain ⟨more, rfl⟩ := Nat.exists_eq_add_of_le hle
      have hmore : more < c.utf8Size := Nat.lt_of_add_lt_add_left (hnext c rfl)
      have hmin : min (byteLength front + more) source.utf8ByteSize = byteLength front + more := by
        rw [hsize, byteLength_cons]
        omega
      rw [hmin]
      exact boundaryUpTo?_inside h more hmore
  have hslice := Span.slice?_of_toList [] front back h
  rw [byteLength_nil, Nat.zero_add] at hslice
  rw [search?, hboundary, Option.bind_eq_bind, Option.bind_some, hslice,
    ofOffset_eq_after h hle hnext]
  simp

end Position

/-- The position of a span that starts at a boundary of characters is that of the text before it. -/
theorem Span.exists_position_eq_after {span : Span} {source : String}
    (h : String.Pos.Raw.IsValid source ⟨span.start⟩) :
    ∃ before, (Span.mk 0 span.start).slice? source = some before ∧
      span.position source = Position.after before.toList := by
  obtain ⟨front, back, hfront, hstart⟩ := isValid_iff_exists_front.1 h
  have hslice := Span.slice?_of_toList [] front back hfront
  rw [byteLength_nil, Nat.zero_add, hstart] at hslice
  refine ⟨String.ofList front, hslice, ?_⟩
  rw [position, ← hstart, Position.ofOffset_boundary hfront, String.toList_ofList]

/-- Where spans start is told apart by their positions: from one boundary of characters to a later
one the position grows, within a character it is that of its first byte, and past the end that of
the end. Lines and columns are counted from one, and the search for a boundary never goes below the
start. -/
theorem Span.position_follows_start (source : String) :
    (∀ a b : Span, String.Pos.Raw.IsValid source ⟨a.start⟩ →
      String.Pos.Raw.IsValid source ⟨b.start⟩ → a.start < b.start →
        a.position source < b.position source) ∧
    (∀ (a b : Span) (front back : List Char) (c : Char), source.toList = front ++ c :: back →
      a.start = byteLength front → a.start ≤ b.start → b.start < a.start + c.utf8Size →
        b.position source = a.position source) ∧
    (∀ a b : Span, a.start = source.utf8ByteSize → a.start ≤ b.start →
      b.position source = a.position source) ∧
    ∀ a : Span, Position.search? source a.start = some (a.position source) ∧
      1 ≤ (a.position source).line ∧ 1 ≤ (a.position source).column := by
  refine ⟨fun a b ha hb => Position.ofOffset_lt_ofOffset ha hb, ?inside, ?past, fun a => ?counted⟩
  case inside =>
    intro a b front back c h ha hle hlt
    rw [ha] at hle hlt
    rw [position, position, ha, Position.ofOffset_boundary h]
    refine Position.ofOffset_eq_after h hle ?_
    rintro _ ⟨⟩
    exact hlt
  case past =>
    intro a b ha hle
    have hend : source.toList = source.toList ++ [] := (List.append_nil _).symm
    rw [ha] at hle
    rw [utf8ByteSize_eq] at ha hle
    rw [position, position, ha, Position.ofOffset_boundary hend]
    exact Position.ofOffset_eq_after hend hle nofun
  case counted =>
    refine ⟨Position.search?_eq source a.start, ?_⟩
    obtain ⟨front, back, h, hle, hnext⟩ := Position.exists_front_of_offset source.toList a.start
    rw [position, Position.ofOffset_eq_after h hle hnext, Position.after]
    exact ⟨Nat.le_add_right _ _, Nat.le_add_right _ _⟩

/-- A character of two bytes at the start of the second line, and an offset far behind the end. -/
theorem Span.position_follows_start_second_line :
    (Span.mk 1 2).position "a\né" < (Span.mk 2 4).position "a\né" ∧
      (Span.mk 3 4).position "a\né" = (Span.mk 2 4).position "a\né" ∧
      (Span.mk 500 501).position "a\né" = (Span.mk 4 4).position "a\né" ∧
      (Span.mk 4 4).position "a\né" = ⟨2, 2⟩ := by
  have hfirst : String.Pos.Raw.IsValid "a\né" ⟨1⟩ := by decide
  have hsecond : String.Pos.Raw.IsValid "a\né" ⟨2⟩ := by decide
  obtain ⟨hgrows, hinside, hpast, -⟩ := position_follows_start "a\né"
  exact ⟨hgrows ⟨1, 2⟩ ⟨2, 4⟩ hfirst hsecond (by decide),
    hinside ⟨2, 4⟩ ⟨3, 4⟩ ['a', '\n'] [] 'é' (by decide) (by decide) (by decide) (by decide),
    hpast ⟨4, 4⟩ ⟨500, 501⟩ (by decide) (by decide), by decide⟩

end JavaFold
