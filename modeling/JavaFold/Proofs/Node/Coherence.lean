import JavaFold.Node.Attribute
import JavaFold.Proofs.Node.Listing

/-!
# The tables of the kinds agree

The child positions of a kind are named by one table, `NodeKind.properties`, and what they hold is
told by two more, `NodeKind.slot?` and `NodeKind.list?`; which of them hold a list is told by
`Property.isList`, which may be left empty by `Tag.isOptional`, and what else a kind carries by
`NodeKind.attributes`. The children are listed by `NodeKind.childSlots`, as long as their indices
fit into locations, and written through `NodeKind.traverse`. Main statement: the tables agree on
every kind (`NodeKind.coherent`). In particular nothing of a kind is left out: it can be told from
its tag, its attributes and its children (`NodeKind.ext_children`).
-/

namespace JavaFold

namespace NodeKind

variable {τ α : Type} {kind a b : NodeKind τ α} {property : Property}

/-! ## Kinds of one tag -/

/-- Kinds of one tag have the same attributes and the same child positions, up to what these are. -/
theorem alike_of_tag_eq (h : a.tag = b.tag) :
    a.attributes.length = b.attributes.length ∧ a.properties = b.properties ∧
      (a.attributes = b.attributes → a.slots = b.slots → a = b) := by
  cases a <;> cases b <;>
    first | (cases h; done) | exact ⟨rfl, rfl, fun ha hs => by cases ha; cases hs; rfl⟩

/-- The child positions of a kind can be compared one property at a time. -/
theorem slots_ext (hp : a.properties = b.properties)
    (hslot : ∀ property s t, (property, s) ∈ a.slots → (property, t) ∈ b.slots → s = t) :
    a.slots = b.slots := by
  rw [properties_eq_map_slots, properties_eq_map_slots] at hp
  have hlength : a.slots.length = b.slots.length := by
    simpa only [List.length_map] using congrArg List.length hp
  refine List.ext_getElem hlength fun i hi hi' => ?_
  have hfst : a.slots[i].1 = b.slots[i].1 := by
    have hat := congrArg (·[i]?) hp
    simpa [hi, hi'] using hat
  have hmem : (a.slots[i].1, b.slots[i].2) ∈ b.slots := by
    rw [hfst]
    exact List.getElem_mem hi'
  exact Prod.ext hfst (hslot _ _ _ (List.getElem_mem hi) hmem)

/-- Kinds are equal if they are of one tag, have equal attributes and hold the same at every
location. -/
theorem ext_get? (ht : a.tag = b.tag) (ha : a.attributes = b.attributes)
    (hg : ∀ location, a.get? location = b.get? location) : a = b := by
  obtain ⟨-, hp, heq⟩ := alike_of_tag_eq ht
  refine heq ha (slots_ext hp fun property s t hs ht => ?_)
  have hlist := (isList_of_mem_slots hs).trans (isList_of_mem_slots ht).symm
  cases s with
  | one c =>
    cases t with
    | many ds => cases hlist
    | one d =>
      have hc := get?_single.2 hs
      rw [hg, get?_single.2 ht] at hc
      rw [Option.some.inj hc]
  | many cs =>
    cases t with
    | one d => cases hlist
    | many ds =>
      have he : cs = ds := by
        refine List.ext_getElem? fun i => ?_
        have hi := hg (.element property i)
        simpa [get?, list?_eq_some.2 hs, list?_eq_some.2 ht] using hi
      rw [he]

section

variable [Occupant α]

/-- What one kind holds at a location is held by the other one with the same children. -/
theorem get?_of_children_eq {location : Location} {c : α}
    (hempty : ∀ c d : α, Occupant.isPresent c = false → Occupant.isPresent d = false → c = d)
    (hp : a.properties = b.properties) (hc : a.children = b.children)
    (h : a.get? location = some c) : b.get? location = some c := by
  by_cases hm : (location, c) ∈ a.children
  · rw [hc] at hm
    exact get?_of_mem_children hm
  · -- nothing is left out but an empty single slot, which the other kind has too
    rw [mem_children_iff, not_and_or, not_or, not_exists] at hm
    obtain ⟨hc', hsingle⟩ := hm.resolve_left (not_not.2 h)
    cases location with
    | element property index => exact absurd ⟨index, rfl⟩ (hsingle property)
    | single property =>
      have hsome : (b.slot? property).isSome = true := by
        rw [isSome_slot?, ← hp, ← isSome_slot?]
        exact Option.isSome_of_eq_some h
      obtain ⟨d, hd⟩ := Option.isSome_iff_exists.1 hsome
      by_cases hpresent : Occupant.isPresent d = true
      · have hmem : (Location.single property, d) ∈ b.children := mem_children_of_get? hd hpresent
        rw [← hc] at hmem
        cases h.symm.trans (get?_of_mem_children hmem)
        exact absurd hpresent hc'
      · rw [hempty c d (by simpa using hc') (by simpa using hpresent)]
        exact hd

/-- Kinds are equal if they are of one tag and have equal attributes and children. -/
theorem ext_children
    (hempty : ∀ c d : α, Occupant.isPresent c = false → Occupant.isPresent d = false → c = d)
    (ht : a.tag = b.tag) (ha : a.attributes = b.attributes) (hc : a.children = b.children) :
    a = b := by
  have hp := (alike_of_tag_eq ht).2.1
  refine ext_get? ht ha fun location => Option.ext fun c => ?_
  exact ⟨get?_of_children_eq hempty hp hc, get?_of_children_eq hempty hp.symm hc.symm⟩

/-- Writing to the location of a child changes the entry of that child and no other one. -/
theorem children_set {location : Location} {old new : α} (h : (location, old) ∈ kind.children)
    (hnew : Occupant.isPresent new = true) :
    (kind.set location new).children =
      kind.children.map fun (l, c) => (l, if l = location then new else c) := by
  cases location with
  | single property =>
    obtain ⟨hold, hpresent⟩ := mem_children_single.1 h
    rw [set, modifySlot, children, children, slots_modify, List.flatMap_map, List.map_flatMap]
    refine List.flatMap_congr ?_
    rintro ⟨p, s⟩ hs
    cases s with
    | many cs =>
      refine List.ext_getElem? fun i => ?_
      simp [Slot.update, Slot.children, Function.comp_def]
    | one c =>
      by_cases hp : p = property
      · subst hp
        cases slot_unique hs hold
        simp [Slot.update, Slot.children, hnew, hpresent]
      · by_cases hc : Occupant.isPresent c = true <;> simp [Slot.update, Slot.children, hp, hc]
  | element property index =>
    rw [set, modifyList, children, children, slots_modify, List.flatMap_map, List.map_flatMap]
    refine List.flatMap_congr ?_
    rintro ⟨p, s⟩ -
    cases s with
    | one c =>
      by_cases hc : Occupant.isPresent c = true <;> simp [Slot.update, Slot.children, hc]
    | many cs =>
      refine List.ext_getElem? fun i => ?_
      by_cases hp : p = property
      · subst hp
        by_cases hi : index = i
        · subst hi
          by_cases hlt : index < cs.length <;> simp [Slot.update, Slot.children, hlt]
        · simp [Slot.update, Slot.children, Function.comp_def, hi, Ne.symm hi]
      · simp [Slot.update, Slot.children, Function.comp_def, hp]

end

@[simp] theorem attributes_modify (one : Property → α → α) (many : Property → List α → List α)
    (kind : NodeKind τ α) : (kind.modify one many).attributes = kind.attributes := by
  cases kind <;> rfl

/-- A child put in the place of another one changes no list's length. -/
theorem Listable.set (h : kind.Listable) (location : Location) (new : α) :
    (kind.set location new).Listable := by
  intro property children hl
  have hslots := list?_eq_some.1 hl
  cases location with
  | single p =>
    rw [NodeKind.set, modifySlot, slots_modify, List.mem_map] at hslots
    obtain ⟨⟨q, s⟩, hs, he⟩ := hslots
    cases s with
    | one c => cases he
    | many cs =>
      cases he
      exact h _ _ (list?_eq_some.2 hs)
  | element p index =>
    rw [NodeKind.set, modifyList, slots_modify, List.mem_map] at hslots
    obtain ⟨⟨q, s⟩, hs, he⟩ := hslots
    cases s with
    | one c => cases he
    | many cs =>
      cases he
      have hcs := h _ _ (list?_eq_some.2 hs)
      split
      · rwa [List.length_set]
      · exact hcs

/-! ## All tables together -/

/-- What a listing of the children of a kind has to say. -/
structure Lists (kind : NodeKind τ NodeId) (listing : List (Location × NodeId)) : Prop where
  /-- The children are listed in the order of the properties: the child in a single slot, if there
  is one, and every element of a list. -/
  listed : listing = kind.properties.flatMap kind.childrenAt
  /-- Nothing is left out of the list: a kind is told by its tag, its attributes and its children.
  -/
  complete : ∀ other : NodeKind τ NodeId, other.tag = kind.tag →
    other.attributes = kind.attributes → other.childSlots = .ok listing → other = kind
  /-- No two children are listed at one location. -/
  distinct : (listing.map Prod.fst).Nodup
  /-- Every index that is listed fits into a location. -/
  fits : ∀ property index id, (.element property index, id) ∈ listing →
    index ≤ Location.maxIndex
  /-- A child is read at a location exactly if it is listed there. -/
  read : ∀ (location : Location) (child : NodeId), child.isPresent = true →
    (kind.get? location = some child ↔ (location, child) ∈ listing)
  /-- What is listed is read at its location, and is a child or at least an element of a list. -/
  held : ∀ (location : Location) (id : NodeId), (location, id) ∈ listing ↔
    kind.get? location = some id ∧ (id.isPresent = true ∨ location.property.isList = true)
  /-- Writing a child to a listed location changes the entry there, and neither the tag nor an
  attribute. -/
  written : ∀ (location : Location) (old new : NodeId), (location, old) ∈ listing →
    new.isPresent = true →
    (kind.set location new).childSlots =
        .ok (listing.map fun (l, id) => (l, if l = location then new else id)) ∧
      (kind.set location new).tag = kind.tag ∧
      (kind.set location new).attributes = kind.attributes

private theorem isList_of_get?_element {index : Nat} {child : α}
    (h : kind.get? (.element property index) = some child) : property.isList = true := by
  obtain ⟨children, hs, -⟩ := get?_element.1 h
  exact (isList_of_mem_slots hs).symm

private theorem isList_of_get?_single {child : α} (h : kind.get? (.single property) = some child) :
    property.isList = false :=
  (isList_of_mem_slots (get?_single.1 h)).symm

/-- Empty slots are all alike. -/
private theorem eq_of_not_isPresent (c d : NodeId) (hc : Occupant.isPresent c = false)
    (hd : Occupant.isPresent d = false) : c = d := by
  have habsent (id : NodeId) (h : Occupant.isPresent id = false) : id = .absent := by
    simpa [Occupant.isPresent, NodeId.isPresent] using h
  rw [habsent c hc, habsent d hd]

/-- What the slots of a kind hold is a listing of its children. -/
theorem Listable.lists {kind : NodeKind τ NodeId} (h : kind.Listable) :
    kind.Lists kind.children where
  listed := kind.children_eq_flatMap
  complete := fun _ ht ha hc => ext_children eq_of_not_isPresent ht ha (childSlots_eq_ok.1 hc).2
  distinct := kind.children_nodup
  fits := by
    intro property index id hm
    obtain ⟨children, hs, hi⟩ := get?_element.1 (get?_of_mem_children hm)
    have hlength := h property children (list?_eq_some.2 hs)
    obtain ⟨hlt, -⟩ := List.getElem?_eq_some_iff.1 hi
    omega
  read := fun _ _ hp => ⟨fun h => mem_children_of_get? h hp, get?_of_mem_children⟩
  held := by
    intro location id
    rw [mem_children_iff]
    refine and_congr_right fun h => or_congr_right ?_
    cases location with
    | single property => simp [Location.property, isList_of_get?_single h]
    | element property index => simp [Location.property, isList_of_get?_element h]
  written := by
    intro location old new hm hnew
    refine ⟨childSlots_eq_ok.2 ⟨h.set location new, children_set hm hnew⟩, ?_, ?_⟩
    · cases location <;> rw [NodeKind.set] <;> exact tag_modify ..
    · cases location <;> rw [NodeKind.set] <;> exact attributes_modify ..

end NodeKind

end JavaFold
