/-!
# Character classes as tables of ranges

A property of characters is stored as the list of its maximal blocks of code points, both ends
included.
-/

namespace JavaFold.Text

/-- A class of characters, as the first and last code point of each of its blocks. -/
abbrev Ranges := Array (Nat × Nat)

/-- Whether a character lies in one of the blocks. -/
def Ranges.contains (ranges : Ranges) (c : Char) : Bool :=
  ranges.any fun block => block.1 ≤ c.toNat && c.toNat ≤ block.2

end JavaFold.Text
