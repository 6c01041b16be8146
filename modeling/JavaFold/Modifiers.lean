/-!
# Declaration modifiers

A declaration carries a set of modifiers. Source order and repetitions are not kept: a set is
written in one canonical order.
-/

namespace JavaFold

/-- The modifiers of a declaration, in canonical order. -/
inductive Modifier where
  | publicFlag | protectedFlag | privateFlag | abstractFlag | staticFlag | finalFlag
  | transientFlag | volatileFlag | synchronizedFlag | nativeFlag | strictfpFlag
  deriving DecidableEq, Repr

namespace Modifier

/-- Every modifier, in canonical order. -/
def all : List Modifier :=
  [publicFlag, protectedFlag, privateFlag, abstractFlag, staticFlag, finalFlag, transientFlag,
    volatileFlag, synchronizedFlag, nativeFlag, strictfpFlag]

/-- The keyword of a modifier. -/
def keyword : Modifier → String
  | publicFlag => "public"
  | protectedFlag => "protected"
  | privateFlag => "private"
  | abstractFlag => "abstract"
  | staticFlag => "static"
  | finalFlag => "final"
  | transientFlag => "transient"
  | volatileFlag => "volatile"
  | synchronizedFlag => "synchronized"
  | nativeFlag => "native"
  | strictfpFlag => "strictfp"

/-- The modifier of a keyword. -/
def ofKeyword? (text : String) : Option Modifier :=
  all.find? fun modifier => modifier.keyword == text

/-- The place of a modifier in a set of modifiers. -/
def bit (modifier : Modifier) : Nat :=
  all.idxOf modifier

end Modifier

/-- A set of modifiers, one bit for each. -/
structure Modifiers where
  /-- Bit `i` tells whether the `i`-th modifier of the canonical order is in the set. -/
  bits : BitVec 11
  deriving DecidableEq, Repr

namespace Modifiers

/-- The set without modifiers. -/
def empty : Modifiers := ⟨0⟩

/-- The set that a number stands for, bits beyond the last modifier being dropped. -/
def ofNat (n : Nat) : Modifiers := ⟨BitVec.ofNat 11 n⟩

/-- The number that stands for a set. -/
def toNat (modifiers : Modifiers) : Nat := modifiers.bits.toNat

/-- The set with one modifier alone. -/
def single (modifier : Modifier) : Modifiers :=
  ⟨BitVec.twoPow 11 modifier.bit⟩

/-- The set with one more modifier. -/
def insert (modifiers : Modifiers) (modifier : Modifier) : Modifiers :=
  ⟨modifiers.bits ||| (single modifier).bits⟩

/-- Whether a modifier is in the set. -/
def contains (modifiers : Modifiers) (modifier : Modifier) : Bool :=
  modifiers.bits.getLsbD modifier.bit

/-- The modifiers of a set, in canonical order. -/
def toList (modifiers : Modifiers) : List Modifier :=
  Modifier.all.filter modifiers.contains

/-- The keywords of a set, in canonical order. -/
def keywords (modifiers : Modifiers) : List String :=
  modifiers.toList.map Modifier.keyword

/-- A set in messages, such as `Modifiers(PUBLIC | STATIC)`. -/
def name (modifiers : Modifiers) : String :=
  match modifiers.keywords with
  | [] => "Modifiers(0x0)"
  | keywords => "Modifiers(" ++ " | ".intercalate (keywords.map String.toUpper) ++ ")"

end Modifiers

end JavaFold
