import JavaFold.Arena.Basic
import JavaFold.Proofs.Node.Slots

/-!
# Listing the children of a kind

The children of a kind are listed one property after the other (`NodeKind.childSlots`). A list
longer than its locations can tell stops the program, and every other kind gives the children that
its slots hold. Main statements: the children are listed if no list is too long
(`NodeKind.childSlots_of_listable`), and otherwise the program stops at the first index that does
not fit (`NodeKind.childSlots_of_not_listable`).
-/

namespace JavaFold

/-- Whether a child position holds a list. -/
def Slot.isList {α : Type} : Slot α → Bool
  | .one _ => false
  | .many _ => true

/-! ## One list -/

/-- The elements of a list are counted from the given index on. -/
theorem Slot.elementsFrom_of_le {α : Type} (property : Property) {index : Nat} {children : List α}
    (h : index + children.length ≤ Location.maxIndex + 1) :
    elementsFrom property index children =
      .ok (children.mapIdx fun j child => (.element property (j + index), child)) := by
  induction children generalizing index with
  | nil => rfl
  | cons child rest ih =>
    rw [List.length_cons] at h
    have hrest := @ih (index + 1) (by omega)
    have hfits : ¬ Location.maxIndex < index := by omega
    simp only [elementsFrom, hrest, hfits, List.mapIdx_cons, Nat.zero_add, if_false]
    simp only [Nat.add_assoc, Nat.add_comm 1]
    rfl

/-- A list with more elements than indices stops the program at the first index too many. -/
theorem Slot.elementsFrom_of_lt {α : Type} (property : Property) {index : Nat} {children : List α}
    (hi : index ≤ Location.maxIndex + 1) (h : Location.maxIndex + 1 < index + children.length) :
    elementsFrom property index children = .error (.overflow (Location.maxIndex + 1)) := by
  induction children generalizing index with
  | nil => simp only [List.length_nil] at h; omega
  | cons child rest ih =>
    rw [List.length_cons] at h
    by_cases hfits : Location.maxIndex < index
    · obtain rfl : index = Location.maxIndex + 1 := by omega
      simp only [elementsFrom, hfits, if_true]
      rfl
    · have hrest := @ih (index + 1) (by omega) (by omega)
      simp only [elementsFrom, hfits, if_false, hrest]
      rfl

namespace NodeKind

variable {τ α : Type} {kind : NodeKind τ α} {property : Property}

/-! ## Which properties name a list -/

/-- Which child positions hold a list is a matter of their properties. -/
theorem isList_of_mem_slots {s : Slot α} (h : (property, s) ∈ kind.slots) :
    s.isList = property.isList := by
  have hall : ∀ slot ∈ kind.slots, slot.2.isList = slot.1.isList := by
    cases kind <;> simp [slots, Slot.isList, Property.isList]
  exact hall _ h

/-- A kind has the single slots that its properties name. -/
theorem isSome_slot? :
    (kind.slot? property).isSome = true ↔ property ∈ kind.properties ∧ property.isList = false := by
  rw [Option.isSome_iff_exists]
  constructor
  · rintro ⟨child, hchild⟩
    have hs := slot?_eq_some.1 hchild
    exact ⟨mem_properties_of_mem_slots hs, (isList_of_mem_slots hs).symm⟩
  · rintro ⟨hp, hlist⟩
    rw [properties_eq_map_slots] at hp
    obtain ⟨⟨p, s⟩, hs, rfl⟩ := List.mem_map.1 hp
    cases s with
    | one child => exact ⟨child, slot?_eq_some.2 hs⟩
    | many children => cases (isList_of_mem_slots hs).trans hlist

/-- A kind has the lists that its properties name. -/
theorem isSome_list? :
    (kind.list? property).isSome = true ↔ property ∈ kind.properties ∧ property.isList = true := by
  rw [Option.isSome_iff_exists]
  constructor
  · rintro ⟨children, hchildren⟩
    have hs := list?_eq_some.1 hchildren
    exact ⟨mem_properties_of_mem_slots hs, (isList_of_mem_slots hs).symm⟩
  · rintro ⟨hp, hlist⟩
    rw [properties_eq_map_slots] at hp
    obtain ⟨⟨p, s⟩, hs, rfl⟩ := List.mem_map.1 hp
    cases s with
    | one child => cases (isList_of_mem_slots hs).trans hlist
    | many children => exact ⟨children, list?_eq_some.2 hs⟩

/-- No list of a kind has more elements than locations can tell. -/
def Listable (kind : NodeKind τ α) : Prop :=
  ∀ property children, kind.list? property = some children →
    children.length ≤ Location.maxIndex + 1

section

variable [Occupant α]

/-! ## One property after the other -/

/-- The children of a kind at one property, looked up by the other tables. -/
def childrenAt (kind : NodeKind τ α) (property : Property) : List (Location × α) :=
  if property.isList then
    ((kind.list? property).getD []).mapIdx fun index child => (.element property index, child)
  else
    ((kind.slot? property).toList.filter Occupant.isPresent).map fun child =>
      (.single property, child)

/-- What the slots of a kind hold is what its properties name, in the same order. -/
theorem children_eq_flatMap (kind : NodeKind τ α) :
    kind.children = kind.properties.flatMap kind.childrenAt := by
  rw [children, properties_eq_map_slots, List.flatMap_map]
  refine List.flatMap_congr ?_
  rintro ⟨property, s⟩ hs
  have hlist := isList_of_mem_slots hs
  cases s with
  | one child =>
    rw [childrenAt, ← hlist, slot?_eq_some.2 hs]
    by_cases hp : Occupant.isPresent child = true <;> simp [Slot.children, Slot.isList, hp]
  | many children =>
    rw [childrenAt, ← hlist, list?_eq_some.2 hs]
    rfl

/-- A property gives its children unless it names too long a list. -/
theorem childSlotsAt_eq_ok
    (h : ∀ children, kind.list? property = some children →
      children.length ≤ Location.maxIndex + 1) :
    kind.childSlotsAt property = .ok (kind.childrenAt property) := by
  rw [childSlotsAt, childrenAt]
  by_cases hp : property.isList = true
  · rw [if_pos hp, if_pos hp]
    cases hl : kind.list? property with
    | none => rfl
    | some children => exact Slot.elementsFrom_of_le property (by simpa using h children hl)
  · rw [if_neg hp, if_neg hp]
    cases kind.slot? property with
    | none => rfl
    | some child => by_cases hc : Occupant.isPresent child = true <;> simp [hc] <;> rfl

/-- A property that names too long a list stops the program. -/
theorem childSlotsAt_eq_error {children : List α} (hl : kind.list? property = some children)
    (h : Location.maxIndex + 1 < children.length) :
    kind.childSlotsAt property = .error (.overflow (Location.maxIndex + 1)) := by
  have hp : property.isList = true := (isSome_list?.1 (Option.isSome_of_eq_some hl)).2
  rw [childSlotsAt, if_pos hp, hl]
  exact Slot.elementsFrom_of_lt property (by omega) (by omega)

/-- The children of a kind are listed if no list is too long. -/
theorem childSlots_of_listable (h : kind.Listable) : kind.childSlots = .ok kind.children := by
  have hat (properties : List Property) :
      properties.mapM kind.childSlotsAt = .ok (properties.map kind.childrenAt) := by
    induction properties with
    | nil => rfl
    | cons property properties ih =>
      rw [List.mapM_cons, ih, childSlotsAt_eq_ok (h property)]
      rfl
  rw [childSlots, hat, children_eq_flatMap, List.flatMap_def]
  rfl

/-- A list that is too long stops the program at the first index that does not fit. -/
theorem childSlots_of_not_listable (h : ¬ kind.Listable) :
    kind.childSlots = .error (.overflow (Location.maxIndex + 1)) := by
  simp only [Listable, not_forall, Nat.not_le] at h
  obtain ⟨long, children, hl, hlong⟩ := h
  have hmem : long ∈ kind.properties := (isSome_list?.1 (Option.isSome_of_eq_some hl)).1
  have hat (properties : List Property) (hm : long ∈ properties) :
      properties.mapM kind.childSlotsAt = .error (.overflow (Location.maxIndex + 1)) := by
    -- a property before the long list either gives its children or stops the program just so
    induction properties with
    | nil => cases hm
    | cons property properties ih =>
      rw [List.mapM_cons]
      by_cases hp : ∃ cs, kind.list? property = some cs ∧ Location.maxIndex + 1 < cs.length
      · obtain ⟨cs, hcs, hlength⟩ := hp
        rw [childSlotsAt_eq_error hcs hlength]
        rfl
      · have hfits : ∀ cs, kind.list? property = some cs → cs.length ≤ Location.maxIndex + 1 :=
          fun cs hcs => Nat.le_of_not_lt fun hlt => hp ⟨cs, hcs, hlt⟩
        have hne : long ≠ property := by
          rintro rfl
          exact hp ⟨children, hl, hlong⟩
        rw [childSlotsAt_eq_ok hfits, ih ((List.mem_cons.1 hm).resolve_left hne)]
        rfl
  rw [childSlots, hat _ hmem]
  rfl

/-- The children are listed exactly if no list is too long, and then they are what the slots hold.
-/
theorem childSlots_eq_ok {listing : List (Location × α)} :
    kind.childSlots = .ok listing ↔ kind.Listable ∧ kind.children = listing := by
  by_cases h : kind.Listable
  · rw [childSlots_of_listable h, Except.ok.injEq, and_iff_right h]
  · rw [childSlots_of_not_listable h]
    exact ⟨nofun, fun hl => absurd hl.1 h⟩

/-- A list of a kind is no longer than all that the kind lists. -/
theorem length_le_length_children {children : List α} (h : kind.list? property = some children) :
    children.length ≤ kind.children.length := by
  have hrow : ((Slot.many children).children property).Sublist kind.children := by
    rw [NodeKind.children, List.flatMap]
    exact List.sublist_flatten_of_mem (List.mem_map_of_mem (list?_eq_some.1 h))
  have hle := hrow.length_le
  rwa [Slot.children, List.length_mapIdx] at hle

end

end NodeKind

end JavaFold
