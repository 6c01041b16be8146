import JavaFold.Proofs.Node.Slots

/-!
# The children of a changed kind

The children of a kind are listed slot by slot. Writing to one location rewrites one slot and leaves
the slots before and after it alone, so the list of children is cut at that location: a replacement
changes the entry at the cut, and a removal drops it and moves the entries behind it that belong to
the same list.
-/

namespace JavaFold

/-- What a slot holds sits at locations of its property. -/
theorem Slot.property_of_mem_children {α : Type} [Occupant α] {property : Property} {slot : Slot α}
    {l : Location} {c : α} (h : (l, c) ∈ slot.children property) : l.property = property := by
  cases slot with
  | one child =>
    simp only [children] at h
    split at h
    · simp only [List.mem_singleton, Prod.mk.injEq] at h
      rw [h.1, Location.property]
    · cases h
  | many cs =>
    simp only [children] at h
    obtain ⟨i, hi, he⟩ := List.mem_mapIdx.1 h
    rw [Prod.mk.injEq] at he
    rw [← he.1, Location.property]

namespace NodeKind

variable {τ α : Type} {kind : NodeKind τ α}

/-! ## Writing twice -/

private theorem modify_modify (one one' : Property → α → α)
    (many many' : Property → List α → List α)
    (kind : NodeKind τ α) :
    (kind.modify one many).modify one' many' =
      kind.modify (fun p c => one' p (one p c)) fun p cs => many' p (many p cs) := by
  cases kind <;> rfl

private theorem modify_id (kind : NodeKind τ α) :
    kind.modify (fun _ child => child) (fun _ children => children) = kind := by
  cases kind <;> rfl

/-- Putting a child back where it was undoes its replacement. -/
theorem set_set {location : Location} {old : α} (h : kind.get? location = some old) (new : α) :
    (kind.set location new).set location old = kind := by
  conv_rhs => rw [← modify_id kind]
  cases location with
  | single property =>
    rw [set, set, modifySlot, modifySlot, modify_modify]
    refine modify_congr (fun p c hc => ?_) fun p cs _ => rfl
    by_cases hp : p = property
    · subst hp
      rw [if_pos rfl, Slot.one.inj (slot_unique hc (get?_single.1 h))]
    · rw [if_neg hp, if_neg hp]
  | element property index =>
    rw [set, set, modifyList, modifyList, modify_modify]
    refine modify_congr (fun p c _ => rfl) fun p cs hcs => ?_
    by_cases hp : p = property
    · subst hp
      obtain ⟨ds, hds, hi⟩ := get?_element.1 h
      obtain ⟨hlt, hget⟩ := List.getElem?_eq_some_iff.1 hi
      rw [if_pos rfl, if_pos rfl, Slot.many.inj (slot_unique hcs hds), List.set_set, ← hget,
        List.set_getElem_self]
    · rw [if_neg hp, if_neg hp]

/-! ## Cutting the list of children -/

/-- The slots of a kind before and after one of them belong to other properties. -/
theorem exists_slots_cut {property : Property} {slot : Slot α}
    (h : (property, slot) ∈ kind.slots) :
    ∃ before after, kind.slots = before ++ (property, slot) :: after ∧
      ∀ other ∈ before ++ after, other.1 ≠ property := by
  obtain ⟨before, after, hcut⟩ := List.append_of_mem h
  refine ⟨before, after, hcut, fun other hother hp => ?_⟩
  have hnodup := kind.properties_nodup
  rw [properties_eq_map_slots, hcut] at hnodup
  have hfirst : ((property :: (before ++ after).map Prod.fst)).Nodup := by
    refine List.Perm.nodup ?_ hnodup
    simp
  exact (List.nodup_cons.1 hfirst).1 (hp ▸ List.mem_map_of_mem hother)

/-- A change of what one property holds leaves the slots before and after it alone. -/
theorem slots_modify_cut {one : Property → α → α} {many : Property → List α → List α}
    {property : Property} {slot : Slot α} {before after : List (Property × Slot α)}
    (hcut : kind.slots = before ++ (property, slot) :: after)
    (hne : ∀ other ∈ before ++ after, other.1 ≠ property)
    (hone : ∀ p, p ≠ property → one p = id) (hmany : ∀ p, p ≠ property → many p = id) :
    (kind.modify one many).slots =
      before ++ (property, slot.update (one property) (many property)) :: after := by
  have hsame : ∀ other ∈ before ++ after,
      (other.1, other.2.update (one other.1) (many other.1)) = other := by
    rintro ⟨p, s⟩ hs
    have hp : p ≠ property := hne _ hs
    cases s <;> simp [Slot.update, hone p hp, hmany p hp]
  rw [slots_modify, hcut, List.map_append, List.map_cons,
    List.map_congr_left (g := id) fun other ho => hsame other (List.mem_append_left _ ho),
    List.map_congr_left (g := id) fun other ho => hsame other (List.mem_append_right _ ho),
    List.map_id, List.map_id]

/-- The elements behind the one that is taken out of a list move up by one place. -/
theorem map_after_mapIdx (property : Property) (index : Nat) (later : List α) :
    (later.mapIdx fun j c => (Location.element property (j + 1 + index), c)).map
        (fun (l, c) => (Location.after (.element property index) l, c)) =
      later.mapIdx fun j c => (.element property (j + index), c) := by
  refine List.ext_getElem? fun j => ?_
  have hj : index < j + 1 + index := by omega
  have hback : j + 1 + index - 1 = j + index := by omega
  simp only [List.getElem?_map, List.getElem?_mapIdx, Option.map_map, Function.comp_def,
    Location.after_element_of_lt hj, hback]

section

variable [Occupant α]

/-- What slots of other properties hold stays where it is after a removal. -/
theorem map_after_eq (gone : Location) {row : List (Property × Slot α)}
    (hrow : ∀ other ∈ row, other.1 ≠ gone.property) :
    (row.flatMap fun (p, s) => s.children p).map (fun (l, c) => (gone.after l, c)) =
      row.flatMap fun (p, s) => s.children p := by
  conv_rhs => rw [← List.map_id (row.flatMap _)]
  refine List.map_congr_left ?_
  rintro ⟨l, c⟩ hl
  obtain ⟨⟨p, s⟩, hs, hc⟩ := List.mem_flatMap.1 hl
  have hp : l.property = p := Slot.property_of_mem_children hc
  exact Prod.ext (Location.after_of_property_ne (hp ▸ hrow _ hs)) rfl

/-- The list of children is cut at a location. Replacing the child there changes that entry alone;
taking the child out drops the entry, and the later ones of the same list move up. -/
theorem exists_children_cut {location : Location} {old : α} (h : kind.get? location = some old)
    (hold : Occupant.isPresent old = true) :
    ∃ before after, kind.children = before ++ (location, old) :: after ∧
      (∀ new, Occupant.isPresent new = true →
        (kind.set location new).children = before ++ (location, new) :: after) ∧
      ∀ empty, Occupant.isPresent empty = false →
        (kind.erase location empty).children =
          before ++ after.map fun (l, c) => (location.after l, c) := by
  -- the slot is cut out of the table, an element of a list then out of its slot
  cases location with
  | single property =>
    obtain ⟨before, after, hcut, hne⟩ := exists_slots_cut (get?_single.1 h)
    have hset (new : α) : (kind.set (.single property) new).slots =
        before ++ (property, .one new) :: after := by
      rw [set, modifySlot, slots_modify_cut hcut hne]
      · simp [Slot.update]
      · exact fun p hp => by funext c; simp [hp]
      · exact fun p hp => rfl
    refine ⟨before.flatMap fun (p, s) => s.children p, after.flatMap fun (p, s) => s.children p,
      ?_, fun new hnew => ?_, fun empty hempty => ?_⟩
    · simp [children, hcut, Slot.children, hold]
    · simp [children, hset, Slot.children, hnew]
    · have herase : (kind.erase (.single property) empty).slots =
          before ++ (property, .one empty) :: after := hset empty
      simp [children, herase, Slot.children, hempty]
  | element property index =>
    obtain ⟨ids, hids, hi⟩ := get?_element.1 h
    obtain ⟨before, after, hcut, hne⟩ := exists_slots_cut hids
    obtain ⟨hlt, hget⟩ := List.getElem?_eq_some_iff.1 hi
    have hmodify (change : List α → List α) : (kind.modifyList property change).slots =
        before ++ (property, .many (change ids)) :: after := by
      rw [modifyList, slots_modify_cut hcut hne]
      · simp [Slot.update]
      · exact fun p hp => rfl
      · exact fun p hp => by funext cs; simp [hp]
    have hlength : (ids.take index).length = index := by
      rw [List.length_take, Nat.min_eq_left (Nat.le_of_lt hlt)]
    refine ⟨(before.flatMap fun (p, s) => s.children p) ++
        (ids.take index).mapIdx fun j c => (.element property j, c),
      ((ids.drop (index + 1)).mapIdx fun j c => (.element property (j + 1 + index), c)) ++
        after.flatMap fun (p, s) => s.children p, ?_, fun new hnew => ?_, fun empty hempty => ?_⟩
    · have hsplit : ids = ids.take index ++ old :: ids.drop (index + 1) := by
        rw [← hget, List.getElem_cons_drop, List.take_append_drop]
      rw [children, hcut, List.flatMap_append, List.flatMap_cons]
      conv_lhs => rw [hsplit]
      simp [Slot.children, List.mapIdx_append, List.mapIdx_cons, hlength]
    · rw [children, set, hmodify, List.flatMap_append, List.flatMap_cons,
        List.set_eq_take_append_cons_drop, if_pos hlt]
      simp [Slot.children, List.mapIdx_append, List.mapIdx_cons, hlength]
    · rw [children, erase, hmodify, List.flatMap_append, List.flatMap_cons, List.map_append,
        map_after_eq (.element property index) fun other ho =>
          hne other (List.mem_append_right _ ho),
        List.eraseIdx_eq_take_drop_succ]
      rw [map_after_mapIdx]
      simp [Slot.children, List.mapIdx_append, hlength]

end

end NodeKind

end JavaFold
