import JavaFold.Proofs.Node.Coherence
import JavaFold.Proofs.Tree.Shape
import JavaFold.Tree.Match

/-!
# Trees that match

The comparison of trees finds nothing in trees that differ only in what their nodes carry, since it
looks at kinds, attributes and children alone. It looks at all of them, so trees in which it finds
nothing differ in nothing else, if there is a node in every place of a list.
-/

namespace JavaFold

namespace NodeKind

variable {τ α β : Type}

/-- Attributes do not depend on children. -/
theorem attributes_map_child (child : α → β) (kind : NodeKind τ α) :
    (kind.map id child).attributes = kind.attributes := by
  cases kind <;> rfl

/-- Two kinds of one tag and equal attributes have no difference. -/
theorem difference?_eq_none {left : NodeKind String α} {right : NodeKind String β}
    (ht : left.tag = right.tag) (ha : left.attributes = right.attributes) :
    left.difference? right = none := by
  rw [difference?, if_neg (not_not.2 ht), ha, List.findSome?_eq_none_iff]
  rintro ⟨a, b⟩ hab
  rw [List.zip_eq_zipWith, List.zipWith_self, List.mem_map] at hab
  obtain ⟨c, -, he⟩ := hab
  cases he
  exact if_neg (not_not.2 rfl)

/-- Two kinds without a difference have one tag and equal attributes. -/
theorem of_difference?_eq_none {a b : NodeKind String α} (h : a.difference? b = none) :
    a.tag = b.tag ∧ a.attributes = b.attributes := by
  rw [difference?] at h
  split at h
  next => cases h
  next ht =>
    rw [ne_eq, not_not] at ht
    refine ⟨ht, List.ext_getElem (alike_of_tag_eq ht).1 fun i hi hi' => ?_⟩
    have hmem : (a.attributes[i], b.attributes[i]) ∈ a.attributes.zip b.attributes :=
      List.mem_iff_getElem?.2 ⟨i, List.getElem?_zip_eq_some.2 (by simp [hi, hi'])⟩
    have hpair : (if a.attributes[i] ≠ b.attributes[i] then
        some (Difference.attributes a.attributes[i] b.attributes[i]) else none) = none :=
      List.findSome?_eq_none_iff.1 h _ hmem
    by_contra hne
    rw [if_pos hne] at hpair
    cases hpair

end NodeKind

/-! ## Rows side by side -/

private theorem firstOfBoth_eq_none {α β γ : Type} {find : α → β → Option γ} {left : List α}
    {right : List β} (h : ∀ (i : Nat) a b, left[i]? = some a → right[i]? = some b → find a b =
        none) :
    firstOfBoth find left right = none := by
  rw [firstOfBoth, List.findSome?_eq_none_iff]
  rintro ⟨a, b⟩ hab
  obtain ⟨i, hi⟩ := List.mem_iff_getElem?.1 hab
  rw [List.getElem?_zip_eq_some] at hi
  exact h i a b hi.1 hi.2

private theorem of_firstOfBoth_eq_none {α β γ : Type} {find : α → β → Option γ} {left : List α}
    {right : List β} (h : firstOfBoth find left right = none) {i : Nat} {a : α} {b : β}
    (ha : left[i]? = some a) (hb : right[i]? = some b) : find a b = none := by
  refine List.findSome?_eq_none_iff.1 h (a, b) (List.mem_iff_getElem?.2 ⟨i, ?_⟩)
  exact List.getElem?_zip_eq_some.2 ⟨ha, hb⟩

private theorem firstOfBoth_attach {α β γ : Type} (find : α → β → Option γ) (left : List α)
    (right : List β) :
    firstOfBoth (fun a => find a.val) left.attach right = firstOfBoth find left right := by
  conv_rhs => rw [firstOfBoth, ← left.attach_map_subtype_val, List.zip_map_left, List.findSome?_map]
  rfl

namespace Tree

variable {ι κ : Type}

/-- There is one way not to be there. -/
theorem absent_unique (c d : Tree ι) (hc : Occupant.isPresent c = false)
    (hd : Occupant.isPresent d = false) : c = d := by
  cases c with
  | node => cases hc
  | absent =>
    cases d with
    | node => cases hd
    | absent => rfl

/-- Two nodes are compared by themselves, then by how many children they list, and then child by
child with the locations first. -/
theorem mismatch?_node (left right : Arena.Stamp) (leftKind rightKind) :
    (Tree.node left leftKind).mismatch? (.node right rightKind) =
      match leftKind.difference? rightKind with
      | some difference => some ⟨left.id, right.id, difference⟩
      | none =>
        if leftKind.children.length ≠ rightKind.children.length then
          some ⟨left.id, right.id, .counts leftKind.children.length rightKind.children.length⟩
        else
          firstOfBoth (fun (leftLocation, leftChild) (rightLocation, rightChild) =>
            if leftLocation ≠ rightLocation then
              some ⟨left.id, right.id, .locations leftLocation rightLocation⟩
            else leftChild.mismatch? rightChild) leftKind.children rightKind.children := by
  rw [mismatch?]
  cases leftKind.difference? rightKind with
  | some difference => rfl
  | none =>
    refine congrArg (ite _ _) ?_
    exact firstOfBoth_attach (fun (leftLocation, leftChild) (rightLocation, rightChild) =>
      if leftLocation ≠ rightLocation then
        some ⟨left.id, right.id, .locations leftLocation rightLocation⟩
      else leftChild.mismatch? rightChild) leftKind.children rightKind.children

/-- Trees that differ only in what their nodes carry match. -/
theorem mismatch?_eq_none {f g : Arena.Stamp → κ} {left right : Tree Arena.Stamp}
    (h : left.mapInfo f = right.mapInfo g) : left.mismatch? right = none := by
  induction left using byOccupants generalizing right with
  | absent => simp [mismatch?]
  | node linfo lkind ih =>
    cases right with
    | absent => simp [mismatch?]
    | node rinfo rkind =>
      rw [mapInfo_node, mapInfo_node, Tree.node.injEq] at h
      have hkind := h.2
      have htag := congrArg NodeKind.tag hkind
      have hattributes := congrArg NodeKind.attributes hkind
      have hchildren := congrArg NodeKind.children hkind
      rw [NodeKind.tag_map, NodeKind.tag_map] at htag
      rw [NodeKind.attributes_map_child, NodeKind.attributes_map_child] at hattributes
      rw [NodeKind.children_map _ fun c _ => isPresent_mapInfo f c,
        NodeKind.children_map _ fun c _ => isPresent_mapInfo g c] at hchildren
      have hlength := congrArg List.length hchildren
      rw [List.length_map, List.length_map] at hlength
      rw [mismatch?_node, NodeKind.difference?_eq_none htag hattributes]
      simp only [hlength, ne_eq, not_true_eq_false, if_false]
      refine firstOfBoth_eq_none fun i => ?_
      rintro ⟨l, c⟩ ⟨k, d⟩ hc hd
      have hi := congrArg (·[i]?) hchildren
      simp only [List.getElem?_map, hc, hd, Option.map_some, Option.some.injEq,
        Prod.mk.injEq] at hi
      rw [if_neg (not_not.2 hi.1)]
      exact ih c (NodeKind.mem_occupants_of_mem_children (List.mem_of_getElem? hc)) hi.2

/-- A tree with a node in every place of every list. -/
inductive RowsFilled : Tree ι → Prop where
  /-- No node. -/
  | absent : RowsFilled .absent
  /-- A node whose children are there. -/
  | node {info : ι} {kind : NodeKind String (Tree ι)}
    (row : ∀ {location c}, (location, c) ∈ kind.children → c.isPresent = true)
    (below : ∀ c ∈ kind.occupants, RowsFilled c) : RowsFilled (.node info kind)

/-- Children in which nothing is found sit at the same locations, and are equal up to what their
nodes carry if this holds of any two that match. -/
theorem children_mapInfo_eq (top : Location → Location → Mismatch)
    {f : Arena.Stamp → κ}
    {left right : List (Location × Tree Arena.Stamp)} (hlength : left.length = right.length)
    (h : firstOfBoth (fun (l, c) (m, d) => if l ≠ m then some (top l m) else c.mismatch? d)
      left right = none)
    (hinfo : ∀ x ∈ left, ∀ y ∈ right, x.2.mismatch? y.2 = none →
      x.2.mapInfo f = y.2.mapInfo f) :
    left.map (fun (l, c) => (l, c.mapInfo f)) = right.map (fun (l, c) => (l, c.mapInfo f)) := by
  refine List.ext_getElem (by simpa using hlength) fun i hi hi' => ?_
  rw [List.length_map] at hi hi'
  have hpair : (if left[i].1 ≠ right[i].1 then some (top left[i].1 right[i].1)
      else left[i].2.mismatch? right[i].2) = none :=
    of_firstOfBoth_eq_none h (List.getElem?_eq_getElem hi) (List.getElem?_eq_getElem hi')
  split at hpair
  next => cases hpair
  next hlocation =>
    rw [List.getElem_map, List.getElem_map]
    exact Prod.ext (not_not.1 hlocation)
      (hinfo _ (List.getElem_mem hi) _ (List.getElem_mem hi') hpair)

/-- Trees that match differ only in what their nodes carry. -/
theorem mapInfo_eq_of_mismatch? {left right : Tree Arena.Stamp} (hl : left.RowsFilled)
    (hr : right.RowsFilled) (hp : left.isPresent = right.isPresent)
    (h : left.mismatch? right = none) (info : κ) :
    left.mapInfo (fun _ => info) = right.mapInfo fun _ => info := by
  induction hl generalizing right with
  | absent =>
    cases hr with
    | absent => rfl
    | node => cases hp
  | @node linfo lkind lrow lbelow ih =>
    cases hr with
    | absent => cases hp
    | @node rinfo rkind rrow rbelow =>
      rw [mismatch?_node] at h
      split at h
      next => cases h
      next hdifference =>
        obtain ⟨htag, hattributes⟩ := NodeKind.of_difference?_eq_none hdifference
        split at h
        next => cases h
        next hlength =>
          have hchildren := children_mapInfo_eq (fun l m => ⟨linfo.id, rinfo.id, .locations l m⟩)
            (not_not.1 hlength) h fun x hx y hy hmatch => ih x.2
                (NodeKind.mem_occupants_of_mem_children hx)
              (rbelow y.2 (NodeKind.mem_occupants_of_mem_children hy))
              ((lrow hx).trans (rrow hy).symm) hmatch
          rw [mapInfo_node, mapInfo_node]
          refine congrArg _ (NodeKind.ext_children absent_unique ?_ ?_ ?_)
          · rw [NodeKind.tag_map, NodeKind.tag_map, htag]
          · rw [NodeKind.attributes_map_child, NodeKind.attributes_map_child, hattributes]
          · rw [NodeKind.children_map _ fun c _ => isPresent_mapInfo _ c,
              NodeKind.children_map _ fun c _ => isPresent_mapInfo _ c]
            exact hchildren

end Tree

namespace Arena

variable {κ : Type} {f g : Stamp → κ} {leftArena rightArena : Arena} {left right : NodeId}

/-- Nodes that are there match if their trees differ only in handles and source ranges. -/
theorem mismatch?_eq_none (hl : leftArena.contains left = true)
    (hr : rightArena.contains right = true)
    (h : (leftArena.tree left).mapInfo f = (rightArena.tree right).mapInfo g) :
    leftArena.mismatch? left rightArena right = none := by
  rw [mismatch?, hl, hr]
  exact Tree.mismatch?_eq_none h

end Arena

end JavaFold
