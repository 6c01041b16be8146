/-!
# Interned texts

Every text is stored once and referred to by its place in the order of first appearance. The empty
text is always there and comes first.
-/

namespace JavaFold

/-- A handle to an interned text. -/
structure Name where
  /-- The number of texts that were interned before. -/
  index : Nat
  deriving DecidableEq, Repr

namespace Name

/-- The handle of the empty text. -/
def empty : Name := ⟨0⟩

/-- A handle in messages, such as `Name(3)`. -/
def text (name : Name) : String :=
  s!"Name({name.index})"

end Name

/-- The texts interned so far, in order of first appearance. -/
structure Interner where
  /-- The interned texts. -/
  texts : Array String
  deriving DecidableEq, Repr

namespace Interner

/-- The interner that holds the empty text alone. -/
def initial : Interner := ⟨#[""]⟩

instance : Inhabited Interner := ⟨initial⟩

/-- The number of interned texts. -/
def size (interner : Interner) : Nat :=
  interner.texts.size

/-- The handle of a text, which is interned if it was not. -/
def intern (interner : Interner) (text : String) : Name × Interner :=
  match interner.texts.idxOf? text with
  | some index => (⟨index⟩, interner)
  | none => (⟨interner.size⟩, ⟨interner.texts.push text⟩)

/-- The text of a handle, the empty text if the handle is not in use. -/
def lookup (interner : Interner) (name : Name) : String :=
  interner.texts.getD name.index ""

/-- An interner in messages. -/
def text (interner : Interner) : String :=
  "StringInterner \x7b len: " ++ toString interner.size ++ " \x7d"

end Interner

end JavaFold
