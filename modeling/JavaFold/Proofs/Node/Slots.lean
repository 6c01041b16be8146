import JavaFold.Tree
import Mathlib.Data.List.Nodup

/-!
# The slot tables of a kind

`NodeKind.slots` lists the child positions of a kind with what they hold and `NodeKind.traverse`
rebuilds it; `NodeKind.properties`, `NodeKind.slot?` and `NodeKind.list?` tell one thing about them
each. Here the five tables are tied together once, by case analysis over the kinds and over the rows
(`slots_modify`, `properties_eq_map_slots`, `slot?_eq_some`, `list?_eq_some`); everything else about
child positions follows from what a list of slots says. Main statements: a location of a kind is
read as one entry of the list (`get?_single`, `get?_element`), the children of a kind are the
locations that hold something (`mem_children_iff`), and writing to one location changes what is read
there and nowhere else (`get?_set`).
-/

namespace JavaFold

namespace Slot

variable {α β : Type}

/-- A child position with its content replaced. -/
def update (one : α → β) (many : List α → List β) : Slot α → Slot β
  | .one child => .one (one child)
  | .many children => .many (many children)

end Slot

namespace Location

/-- Where a child sits after the child at `gone` was taken out of the same parent. -/
def after (gone : Location) : Location → Location
  | .single property => .single property
  | .element property index =>
    match gone with
    | .single _ => .element property index
    | .element q i =>
      if property = q ∧ i < index then .element property (index - 1) else .element property index

/-- Nothing moves when a single slot is emptied. -/
@[simp] theorem after_single (property : Property) (l : Location) :
    after (.single property) l = l := by
  cases l <;> rfl

/-- A later element of the list moves up. -/
theorem after_element_of_lt {property : Property} {i j : Nat} (h : i < j) :
    after (.element property i) (.element property j) = .element property (j - 1) := by
  simp only [after, h, and_self, if_true]

/-- An earlier element of the list stays. -/
theorem after_element_of_le {property : Property} {i j : Nat} (h : j ≤ i) :
    after (.element property i) (.element property j) = .element property j := by
  simp only [after, Nat.not_lt_of_le h, and_false, if_false]

/-- What belongs to another property stays. -/
theorem after_of_property_ne {gone l : Location} (h : l.property ≠ gone.property) :
    gone.after l = l := by
  cases l with
  | single p => rfl
  | element p j =>
    cases gone with
    | single q => rfl
    | element q i =>
      have hp : p ≠ q := h
      simp only [after, hp, false_and, if_false]

end Location

namespace NodeKind

variable {τ σ υ α β γ : Type}

/-! ## Case analysis over the kinds -/

/-- The texts that a kind carries. -/
def texts : NodeKind τ α → List τ
  | simpleName identifier => [identifier]
  | characterLiteral escaped => [escaped]
  | stringLiteral escaped => [escaped]
  | numberLiteral token => [token]
  | _ => []

/-- A kind with its children mapped has its slots mapped. -/
theorem slots_map (text : τ → σ) (child : α → β) (kind : NodeKind τ α) :
    (kind.map text child).slots =
      kind.slots.map fun (property, slot) => (property, slot.update child (List.map child)) := by
  cases kind <;> rfl

/-- A kind with its slots changed one by one has the changed slots. -/
theorem slots_modify (one : Property → α → α) (many : Property → List α → List α)
    (kind : NodeKind τ α) :
    (kind.modify one many).slots =
      kind.slots.map fun (property, slot) =>
        (property, slot.update (one property) (many property)) := by
  cases kind <;> rfl

/-- The properties of a kind are those of its slots, in order. -/
theorem properties_eq_map_slots (kind : NodeKind τ α) :
    kind.properties = kind.slots.map Prod.fst := by
  cases kind <;> rfl

/-- The property of a slot is one of the kind. -/
theorem mem_properties_of_mem_slots {kind : NodeKind τ α} {property : Property} {slot : Slot α}
    (h : (property, slot) ∈ kind.slots) : property ∈ kind.properties :=
  kind.properties_eq_map_slots ▸ List.mem_map_of_mem h

/-- No kind has two slots for one property. -/
theorem properties_nodup (kind : NodeKind τ α) : kind.properties.Nodup := by
  cases kind <;> simp [properties]

@[simp] theorem tag_map (text : τ → σ) (child : α → β) (kind : NodeKind τ α) :
    (kind.map text child).tag = kind.tag := by
  cases kind <;> rfl

/-- Children mapped twice are mapped once by both. -/
theorem map_map (text : τ → σ) (text' : σ → υ) (child : α → β) (child' : β → γ)
    (kind : NodeKind τ α) :
    (kind.map text child).map text' child' = kind.map (text' ∘ text) (child' ∘ child) := by
  cases kind <;> simp [map, traverse, Id.run, pure, bind]

@[simp] theorem map_id (kind : NodeKind τ α) : kind.map id id = kind := by
  cases kind <;> simp [map, traverse, Id.run, pure, bind]

/-- Two replacements that agree on what a kind holds give the same kind. -/
theorem map_congr {text : τ → σ} {child child' : α → β} {kind : NodeKind τ α}
    (h : ∀ c ∈ kind.occupants, child c = child' c) : kind.map text child =
        kind.map text child' := by
  cases kind <;> simp [map, traverse, Id.run, pure, bind, occupants, slots] at h ⊢ <;> grind

/-- A map of texts is determined by the texts that occur. -/
theorem map_congr_texts {text text' : τ → σ} {child : α → β} {kind : NodeKind τ α}
    (h : ∀ t ∈ kind.texts, text t = text' t) : kind.map text child = kind.map text' child := by
  cases kind <;> first | rfl | simp_all [texts, map, traverse, Id.run, pure, bind]

/-- Two updates that agree on the slots of a kind give the same kind. -/
theorem modify_congr {one one' : Property → α → α} {many many' : Property → List α → List α}
    {kind : NodeKind τ α}
    (hone : ∀ property child, (property, Slot.one child) ∈ kind.slots →
      one property child = one' property child)
    (hmany : ∀ property children, (property, Slot.many children) ∈ kind.slots →
      many property children = many' property children) :
    kind.modify one many = kind.modify one' many' := by
  cases kind <;> simp [modify, traverse, Id.run, pure, bind, slots] at hone hmany ⊢ <;> grind

private theorem map_eq_modify (child : α → α) (kind : NodeKind τ α) :
    kind.map id child = kind.modify (fun _ => child) fun _ => List.map child := by
  cases kind <;> rfl

/-! ## Reading a location -/

/-- No two slots belong to one property. -/
theorem slot_unique {kind : NodeKind τ α} {property : Property} {s t : Slot α}
    (hs : (property, s) ∈ kind.slots) (ht : (property, t) ∈ kind.slots) : s = t := by
  have hn := kind.properties_nodup
  rw [properties_eq_map_slots] at hn
  have he := List.inj_on_of_nodup_map hn hs ht rfl
  exact congrArg Prod.snd he

/-- A single child is asked for by the property of its slot. -/
theorem slot?_eq_some {kind : NodeKind τ α} {property : Property} {child : α} :
    kind.slot? property = some child ↔ (property, Slot.one child) ∈ kind.slots := by
  constructor
  · intro h
    -- one case for each row of the table
    unfold slot? at h
    split at h <;> cases h <;> simp [slots]
  · intro h
    cases kind <;> simp only [slots, List.mem_cons, List.not_mem_nil] at h <;> grind [slot?]

/-- A list of children is asked for by the property of its slot. -/
theorem list?_eq_some {kind : NodeKind τ α} {property : Property} {children : List α} :
    kind.list? property = some children ↔ (property, Slot.many children) ∈ kind.slots := by
  constructor
  · intro h
    unfold list? at h
    split at h <;> cases h <;> simp [slots]
  · intro h
    cases kind <;> simp only [slots, List.mem_cons, List.not_mem_nil] at h <;> grind [list?]

/-- What a kind has at a single location is in the slot of the property. -/
theorem get?_single {kind : NodeKind τ α} {property : Property} {child : α} :
    kind.get? (.single property) = some child ↔ (property, Slot.one child) ∈ kind.slots :=
  slot?_eq_some

/-- What a kind has at a location in a list is the element of that index. -/
theorem get?_element {kind : NodeKind τ α} {property : Property} {index : Nat} {child : α} :
    kind.get? (.element property index) = some child ↔
      ∃ children, (property, Slot.many children) ∈ kind.slots ∧ children[index]? = some child := by
  simp only [get?, Option.bind_eq_some_iff, list?_eq_some]

/-! ## Children -/

section

variable [Occupant α]

/-- A single child is listed unless it is missing. -/
theorem mem_children_single {kind : NodeKind τ α} {property : Property} {child : α} :
    (Location.single property, child) ∈ kind.children ↔
      (property, Slot.one child) ∈ kind.slots ∧ Occupant.isPresent child = true := by
  simp only [children, List.mem_flatMap]
  constructor
  · rintro ⟨⟨q, s⟩, hs, hm⟩
    cases s with
    | one c =>
      by_cases hc : Occupant.isPresent c = true <;> simp_all [Slot.children]
    | many cs => simp [Slot.children] at hm
  · rintro ⟨hs, hp⟩
    exact ⟨_, hs, by simp [Slot.children, hp]⟩

/-- Every element of a list is listed, also one that is missing. -/
theorem mem_children_element {kind : NodeKind τ α} {property : Property} {index : Nat}
    {child : α} :
    (Location.element property index, child) ∈ kind.children ↔
      ∃ children, (property, Slot.many children) ∈ kind.slots ∧
        children[index]? = some child := by
  simp only [children, List.mem_flatMap]
  constructor
  · rintro ⟨⟨q, s⟩, hs, hm⟩
    cases s with
    | one c =>
      by_cases hc : Occupant.isPresent c = true <;> simp_all [Slot.children]
    | many cs =>
      simp only [Slot.children, List.mem_mapIdx, Prod.mk.injEq, Location.element.injEq] at hm
      obtain ⟨i, hi, ⟨rfl, rfl⟩, rfl⟩ := hm
      exact ⟨cs, hs, List.getElem?_eq_getElem hi⟩
  · rintro ⟨cs, hs, hi⟩
    obtain ⟨hlt, he⟩ := List.getElem?_eq_some_iff.1 hi
    exact ⟨_, hs, List.mem_mapIdx.2 ⟨index, hlt, by rw [he]⟩⟩

/-- A child is what a location holds, an empty single slot holding none. -/
theorem mem_children_iff {kind : NodeKind τ α} {location : Location} {child : α} :
    (location, child) ∈ kind.children ↔ kind.get? location = some child ∧
      (Occupant.isPresent child = true ∨ ∃ property index, location = .element property index) := by
  cases location with
  | single property => simp [mem_children_single, get?_single]
  | element property index => simp [mem_children_element, get?_element]

/-- A child is found at its location. -/
theorem get?_of_mem_children {kind : NodeKind τ α} {location : Location} {child : α}
    (h : (location, child) ∈ kind.children) : kind.get? location = some child :=
  (mem_children_iff.1 h).1

/-- What a location holds is among the children if it is present. -/
theorem mem_children_of_get? {kind : NodeKind τ α} {location : Location} {child : α}
    (h : kind.get? location = some child) (hp : Occupant.isPresent child = true) :
    (location, child) ∈ kind.children :=
  mem_children_iff.2 ⟨h, .inl hp⟩

/-- No two children of a kind share a location. -/
theorem children_nodup (kind : NodeKind τ α) : (kind.children.map Prod.fst).Nodup := by
  have hn := kind.properties_nodup
  rw [properties_eq_map_slots] at hn
  rw [children, List.map_flatMap, List.nodup_flatMap]
  constructor
  · rintro ⟨property, s⟩ -
    cases s with
    | one c => by_cases hc : Occupant.isPresent c = true <;> simp [Slot.children, hc]
    | many cs =>
      simp only [Slot.children]
      rw [List.nodup_iff_injective_getElem]
      intro i j hij
      simpa [Fin.ext_iff] using hij
  · refine (List.pairwise_map.1 hn).imp ?_
    rintro ⟨p, s⟩ ⟨q, t⟩ hpq location hs ht
    have hprop : ∀ (property : Property) (slot : Slot α),
        location ∈ (slot.children property).map Prod.fst → location.property = property := by
      intro property slot hl
      cases slot with
      | one c =>
        by_cases hc : Occupant.isPresent c = true <;> simp [Slot.children, hc] at hl
        rw [hl, Location.property]
      | many cs =>
        obtain ⟨⟨l, c⟩, hm, rfl⟩ := List.mem_map.1 hl
        obtain ⟨i, hi, he⟩ := List.mem_mapIdx.1 hm
        rw [← (Prod.ext_iff.1 he).1, Location.property]
    exact hpq ((hprop p s hs).symm.trans (hprop q t ht))

end

/-- What occupies a slot is what is found at some location. -/
theorem mem_occupants_iff {kind : NodeKind τ α} {child : α} :
    child ∈ kind.occupants ↔ ∃ location, kind.get? location = some child := by
  simp only [occupants, List.mem_flatMap]
  constructor
  · rintro ⟨⟨property, s⟩, hs, hm⟩
    cases s with
    | one c => exact ⟨.single property, get?_single.2 (by simp_all)⟩
    | many cs =>
      obtain ⟨i, hi, he⟩ := List.mem_iff_getElem.1 hm
      exact ⟨.element property i,
        get?_element.2 ⟨cs, hs, by rw [List.getElem?_eq_getElem hi, he]⟩⟩
  · rintro ⟨location, h⟩
    cases location with
    | single property => exact ⟨_, get?_single.1 h, by simp⟩
    | element property index =>
      obtain ⟨cs, hs, hi⟩ := get?_element.1 h
      exact ⟨_, hs, List.mem_of_getElem? hi⟩

/-! ## Writing to a location -/

private theorem slot?_modify (one : Property → α → α) (many : Property → List α → List α)
    (kind : NodeKind τ α) (property : Property) :
    (kind.modify one many).slot? property = (kind.slot? property).map (one property) := by
  ext child
  rw [slot?_eq_some, slots_modify, List.mem_map, Option.map_eq_some_iff]
  constructor
  · rintro ⟨⟨p, s⟩, hs, he⟩
    cases s <;> simp_all [Slot.update, slot?_eq_some]
    obtain ⟨rfl, rfl⟩ := he
    exact ⟨_, hs, rfl⟩
  · rintro ⟨c, hc, rfl⟩
    exact ⟨_, slot?_eq_some.1 hc, rfl⟩

/-- A list is changed by the change of its slot. -/
theorem list?_modify (one : Property → α → α) (many : Property → List α → List α)
    (kind : NodeKind τ α) (property : Property) :
    (kind.modify one many).list? property = (kind.list? property).map (many property) := by
  ext children
  rw [list?_eq_some, slots_modify, List.mem_map, Option.map_eq_some_iff]
  constructor
  · rintro ⟨⟨p, s⟩, hs, he⟩
    cases s <;> simp_all [Slot.update, list?_eq_some]
    obtain ⟨rfl, rfl⟩ := he
    exact ⟨_, hs, rfl⟩
  · rintro ⟨cs, hcs, rfl⟩
    exact ⟨_, list?_eq_some.1 hcs, rfl⟩

/-- Replacing the child at a location changes what is read there and nowhere else. -/
theorem get?_set {kind : NodeKind τ α} {location : Location} {old : α}
    (h : kind.get? location = some old) (new : α) (other : Location) :
    (kind.set location new).get? other =
      if other = location then some new else kind.get? other := by
  cases location with
  | single property =>
    cases other with
    | single q =>
      by_cases hq : q = property
      · subst hq
        simp_all [set, get?, modifySlot, slot?_modify]
      · simp [set, get?, modifySlot, slot?_modify, hq]
    | element q j => simp [set, get?, modifySlot, list?_modify]
  | element property index =>
    cases other with
    | single q => simp [set, get?, modifyList, slot?_modify]
    | element q j =>
      by_cases hq : q = property
      · subst hq
        obtain ⟨cs, hcs, hi⟩ := Option.bind_eq_some_iff.1 h
        obtain ⟨hlt, -⟩ := List.getElem?_eq_some_iff.1 hi
        simp only [set, get?, modifyList, list?_modify, hcs, Option.map_some, if_true,
          Option.bind_some, List.getElem?_set, Location.element.injEq, true_and]
        by_cases hj : j = index
        · simp [hj, hlt]
        · simp [hj, Ne.symm hj]
      · simp [set, get?, modifyList, list?_modify, hq]

/-- Taking out the content of a single slot empties that slot alone. -/
theorem get?_erase_single {kind : NodeKind τ α} {property : Property} {old : α}
    (h : kind.get? (.single property) = some old) (empty : α) (other : Location) :
    (kind.erase (.single property) empty).get? other =
      if other = .single property then some empty else kind.get? other :=
  get?_set h empty other

/-- Taking an element out of a list moves the later ones up by one place. -/
theorem get?_erase_element (kind : NodeKind τ α) (property : Property) (index : Nat) (empty : α)
    (other : Location) :
    (kind.erase (.element property index) empty).get? other =
      match other with
      | .single q => kind.get? (.single q)
      | .element q j =>
        if q = property ∧ index ≤ j then kind.get? (.element q (j + 1))
        else kind.get? (.element q j) := by
  cases other with
  | single q => simp [erase, get?, modifyList, slot?_modify]
  | element q j =>
    by_cases hq : q = property
    · subst hq
      cases hcs : kind.list? q with
      | none => simp [erase, get?, modifyList, list?_modify, hcs]
      | some cs =>
        simp only [erase, get?, modifyList, list?_modify, hcs, Option.map_some, if_true,
          Option.bind_some, List.getElem?_eraseIdx, true_and]
        by_cases hj : j < index
        · simp [hj, Nat.not_le_of_lt hj]
        · simp [hj, Nat.le_of_not_lt hj]
    · simp [erase, get?, modifyList, list?_modify, hq]

/-- What is left at a location after a removal is what sat there before, moved up. -/
theorem get?_erase_after {kind : NodeKind τ α} {gone : Location} {c : α}
    (hg : kind.get? gone = some c) (empty : α) (l : Location) (hne : l ≠ gone) :
    (kind.erase gone empty).get? (Location.after gone l) = kind.get? l := by
  cases gone with
  | single q =>
    rw [get?_erase_single hg]
    cases l with
    | single p => simp_all [Location.after]
    | element p j => simp [Location.after]
  | element q i =>
    rw [get?_erase_element]
    cases l with
    | single p => simp [Location.after]
    | element p j =>
      by_cases hp : p = q ∧ i < j
      · obtain ⟨rfl, hlt⟩ := hp
        obtain ⟨k, rfl⟩ : ∃ k, j = k + 1 := ⟨j - 1, by omega⟩
        have hle : i ≤ k := by omega
        simp [Location.after, hlt, hle]
      · have hnot : ¬ (p = q ∧ i ≤ j) := by
          rintro ⟨rfl, hle⟩
          have : j ≠ i := fun he => hne (by rw [he])
          exact hp ⟨rfl, by omega⟩
        simp [Location.after, hp, hnot]

/-- What a removal leaves was there before, at another location than the one emptied. -/
theorem exists_of_get?_erase {kind : NodeKind τ α} {gone l : Location} {c d empty : α}
    (hg : kind.get? gone = some c) (h : (kind.erase gone empty).get? l = some d)
    (hd : d ≠ empty ∨ ∃ property index, l = .element property index) :
    ∃ k, k ≠ gone ∧ l = Location.after gone k ∧ kind.get? k = some d := by
  cases gone with
  | single q =>
    rw [get?_erase_single hg] at h
    split at h
    next he =>
      rcases hd with hd | ⟨p, j, hl⟩
      · exact absurd (Option.some.inj h).symm hd
      · rw [hl] at he
        cases he
    next hne => cases l <;> exact ⟨_, hne, rfl, h⟩
  | element q i =>
    rw [get?_erase_element] at h
    cases l with
    | single p => exact ⟨.single p, nofun, rfl, h⟩
    | element p j =>
      simp only at h
      split at h
      next hp =>
        obtain ⟨rfl, hle⟩ := hp
        have hlt : i < j + 1 := by omega
        refine ⟨.element p (j + 1), ?_, by simp [Location.after, hlt], h⟩
        simp only [ne_eq, Location.element.injEq, true_and]
        omega
      next hp =>
        have hnot : ¬ (p = q ∧ i < j) := fun hh => hp ⟨hh.1, by omega⟩
        refine ⟨.element p j, ?_, by simp [Location.after, hnot], h⟩
        simp only [ne_eq, Location.element.injEq]
        rintro ⟨rfl, rfl⟩
        exact hp ⟨rfl, Nat.le_refl _⟩

@[simp] theorem tag_modify (one : Property → α → α) (many : Property → List α → List α)
    (kind : NodeKind τ α) : (kind.modify one many).tag = kind.tag := by
  cases kind <;> rfl

private theorem map_replace_of_not_mem [DecidableEq α] {old : α} (new : α) {cs : List α}
    (h : old ∉ cs) : cs.map (fun c => if c = old then new else c) = cs := by
  conv_rhs => rw [← List.map_id cs]
  refine List.map_congr_left fun c hc => ?_
  have hne : c ≠ old := fun he => h (he ▸ hc)
  simp [hne]

/-- An element that occurs once is set by replacing it wherever it occurs. -/
private theorem set_eq_map_replace [DecidableEq α] {old : α} {cs : List α} {index : Nat}
    (hi : cs[index]? = some old) (hu : ∀ j, cs[j]? = some old → j = index) (new : α) :
    cs.set index new = cs.map fun c => if c = old then new else c := by
  obtain ⟨hlt, hold⟩ := List.getElem?_eq_some_iff.1 hi
  apply List.ext_getElem?
  intro j
  rw [List.getElem?_set, List.getElem?_map]
  by_cases hj : index = j
  · subst hj
    simp [hlt, hold]
  · rw [if_neg hj]
    cases hcj : cs[j]? with
    | none => rfl
    | some c =>
      have hne : c ≠ old := by
        rintro rfl
        exact hj (hu j hcj).symm
      simp [hne]

/-- Replacing a child that sits in one location only is the same as replacing it wherever it is. -/
theorem set_eq_map [DecidableEq α] {kind : NodeKind τ α} {location : Location} {old : α}
    (h : kind.get? location = some old)
    (hu : ∀ other, kind.get? other = some old → other = location) (new : α) :
    kind.set location new = kind.map id fun child => if child = old then new else child := by
  rw [map_eq_modify]
  cases location with
  | single property =>
    rw [set, modifySlot]
    refine modify_congr ?_ ?_
    · intro p c hc
      by_cases hp : p = property
      · subst hp
        have he := Slot.one.inj (slot_unique hc (get?_single.1 h))
        simp [he]
      · have hne : c ≠ old := by
          rintro rfl
          exact hp (Location.single.inj (hu _ (get?_single.2 hc)))
        simp [hp, hne]
    · intro p cs hcs
      refine (map_replace_of_not_mem new fun hc => ?_).symm
      obtain ⟨i, hi⟩ := List.mem_iff_getElem?.1 hc
      cases hu _ (get?_element.2 ⟨cs, hcs, hi⟩)
  | element property index =>
    rw [set, modifyList]
    refine modify_congr ?_ ?_
    · intro p c hc
      have hne : c ≠ old := by
        rintro rfl
        cases hu _ (get?_single.2 hc)
      simp [hne]
    · intro p cs hcs
      have hold : ∀ j, cs[j]? = some old → Location.element p j = .element property index :=
        fun j hj => hu _ (get?_element.2 ⟨cs, hcs, hj⟩)
      by_cases hp : p = property
      · subst hp
        obtain ⟨ds, hds, hi⟩ := get?_element.1 h
        have he := Slot.many.inj (slot_unique hcs hds)
        subst he
        rw [if_pos rfl, set_eq_map_replace hi fun j hj => (Location.element.inj (hold j hj)).2]
      · rw [if_neg hp]
        refine (map_replace_of_not_mem new fun hc => ?_).symm
        obtain ⟨i, hi⟩ := List.mem_iff_getElem?.1 hc
        exact hp (Location.element.inj (hold i hi)).1

end NodeKind

end JavaFold
