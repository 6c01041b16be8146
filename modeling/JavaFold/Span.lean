/-!
# Byte ranges of a source text and their positions

A span is a half-open range of UTF-8 byte offsets. A position is what a reader sees: a line and a
column, both counted from one, columns in characters.
-/

namespace JavaFold

/-- A half-open range of byte offsets in a source text. -/
structure Span where
  /-- Offset of the first byte. -/
  start : Nat
  /-- Offset just past the last byte. -/
  stop : Nat
  deriving DecidableEq, Repr, Inhabited

namespace Span

/-- The range of a node that no source text stands for. -/
def nowhere : Span := ⟨0, 0⟩

/-- The empty range at one offset. -/
def point (offset : Nat) : Span := ⟨offset, offset⟩

/-- The number of bytes, provided the range does not end before it starts. -/
def length? (span : Span) : Option Nat :=
  if span.start ≤ span.stop then some (span.stop - span.start) else none

/-- Whether both ends are the same offset. -/
def isEmpty (span : Span) : Bool :=
  span.start == span.stop

/-- The smallest range that covers two ranges. -/
def merge (a b : Span) : Span :=
  ⟨min a.start b.start, max a.stop b.stop⟩

/-- A range in writing, such as `3..7`. -/
def text (span : Span) : String :=
  s!"{span.start}..{span.stop}"

end Span

/-- The number of bytes that characters take in UTF-8. -/
def byteLength : List Char → Nat
  | [] => 0
  | c :: rest => c.utf8Size + byteLength rest

@[simp] theorem byteLength_nil : byteLength [] = 0 := rfl

@[simp] theorem byteLength_cons (c : Char) (cs : List Char) :
    byteLength (c :: cs) = c.utf8Size + byteLength cs := rfl

@[simp] theorem byteLength_append (xs ys : List Char) :
    byteLength (xs ++ ys) = byteLength xs + byteLength ys := by
  induction xs with
  | nil => simp
  | cons x xs ih => simp [ih, Nat.add_assoc]

/-- A line and a column, both counted from one. -/
structure Position where
  /-- One more than the number of line ends before the position. -/
  line : Nat
  /-- One more than the number of characters between the last line end and the position. -/
  column : Nat
  deriving DecidableEq, Repr

namespace Position

/-- Where a text begins. -/
def origin : Position := ⟨1, 1⟩

/-- The position after one more character. -/
def advance (position : Position) (c : Char) : Position :=
  if c = '\n' then ⟨position.line + 1, 1⟩ else ⟨position.line, position.column + 1⟩

/-- The position reached from `position` over the characters that end within the next `bytes` bytes:
an offset inside a character stands for the start of that character, and an offset past the end for
the end. -/
def advanceBytes (position : Position) (bytes : Nat) : List Char → Position
  | [] => position
  | c :: rest =>
    if c.utf8Size ≤ bytes then (position.advance c).advanceBytes (bytes - c.utf8Size) rest
    else position

/-- The position of a byte offset in a source text. -/
def ofOffset (source : String) (offset : Nat) : Position :=
  origin.advanceBytes offset source.toList

end Position

/-- The position where a span starts in a source text. -/
def Span.position (span : Span) (source : String) : Position :=
  Position.ofOffset source span.start

end JavaFold
