import JavaFold.Proofs.Arena.Matching
import JavaFold.Proofs.Layout.Whole

/-!
# Nodes that match are written alike

The layout of a node is made from the kinds, attributes and texts under it, all of which the
comparison looks at. So nodes that match have the same text, whatever their handles, source ranges
and numbers of names are, and whatever else is in the two arenas. If every slot under them that must
not be empty holds a node (`Supplied`), there is such a text.
-/

namespace JavaFold

namespace Arena

variable {a b va : Arena} {x left right : NodeId} {node : Node}

/-- Every slot under a node that must not be empty holds a node. -/
def Supplied (arena : Arena) (id : NodeId) : Prop :=
  ∀ x ∈ arena.descendants id, ∀ node ∈ arena.node? x, ∀ property ∈ node.kind.properties,
    node.tag.isOptional property = false →
      ∀ child ∈ node.kind.slot? property, arena.contains child = true

instance (arena : Arena) (id : NodeId) : Decidable (arena.Supplied id) :=
  inferInstanceAs (Decidable (∀ x ∈ arena.descendants id, ∀ node ∈ arena.node? x,
    ∀ property ∈ node.kind.properties, node.tag.isOptional property = false →
      ∀ child ∈ node.kind.slot? property, arena.contains child = true))

private theorem Supplied.occupant (h : a.Shows va) (hn : a.node? x = some node) (hs : a.Supplied x)
    {c : NodeId} (hc : c ∈ node.kind.occupants) : a.Supplied c := by
  intro y hy
  refine hs y ?_
  rw [h.descendants_node hn]
  exact List.mem_cons_of_mem _ (List.mem_flatMap.2 ⟨c, hc, hy⟩)

/-- Nothing is missing in the tree of a node under which no slot is empty that must not be. -/
theorem Supplied.complete (h : a.Shows va) (hn : a.node? x = some node) (hs : a.Supplied x) :
    (a.tree x).Complete := by
  have hpresent : x ≠ .absent := NodeId.isPresent_iff.1 (isPresent_of_node? hn)
  revert hs
  refine h.linked.byOccupants (motive := fun x => x ≠ .absent → a.Supplied x →
    (a.tree x).Complete) (fun h => absurd rfl h) ?_ ⟨_, h.node?_eq_some hn⟩ hpresent
  intro x node' hn' ih _ hs
  obtain ⟨node, hn, rfl⟩ := h.exists_node? hn'
  have hchild {c : NodeId} (hc : c ∈ node.kind.occupants) (hcontains : a.contains c = true) :
      (a.tree c).Complete := by
    obtain ⟨child, hchild⟩ := contains_iff.1 hcontains
    exact ih c hc (NodeId.isPresent_iff.1 (isPresent_of_node? hchild)) (hs.occupant h hn hc)
  rw [h.tree_node hn]
  refine .of_slots fun slot hslot => ?_
  rw [NodeKind.slots_map, List.mem_map] at hslot
  obtain ⟨⟨property, slot⟩, hslot, rfl⟩ := hslot
  rw [NodeKind.tag_map]
  cases slot with
  | one c =>
    have hget : node.kind.get? (.single property) = some c := NodeKind.get?_single.2 hslot
    have hc : c ∈ node.kind.occupants := NodeKind.mem_occupants_iff.2 ⟨_, hget⟩
    rcases h.contains_of_get? hn hget with rfl | hcontains
    · refine .inr ⟨tree_absent a, ?_⟩
      by_contra ho
      have hself : x ∈ a.descendants x := by
        rw [h.descendants_node hn]
        exact List.mem_cons_self
      have hheld := hs x hself node hn property (NodeKind.mem_properties_of_mem_slots hslot)
        (Bool.not_eq_true _ ▸ ho) .absent (NodeKind.slot?_eq_some.2 hslot)
      cases hheld
    · exact .inl (hchild hc hcontains)
  | many cs =>
    intro tree htree
    obtain ⟨c, hc, rfl⟩ := List.mem_map.1 htree
    obtain ⟨i, hi⟩ := List.mem_iff_getElem?.1 hc
    have hmem := NodeKind.mem_children_element.2 ⟨cs, hslot, hi⟩
    exact hchild (NodeKind.mem_occupants_of_mem_children hmem) (h.contains_of_mem_children hn hmem)

/-- In any two arenas that operations lead to, nodes that match are written alike, and they can be
written if nothing is missing under one of them. -/
theorem reachable_renderNode?_of_mismatch? (ha : a.Reachable) (hb : b.Reachable)
    (hl : a.contains left = true) (hr : b.contains right = true)
    (h : a.mismatch? left b right = none) :
    a.renderNode? left = b.renderNode? right ∧
      (a.Supplied left ∨ b.Supplied right →
        ∃ text, a.renderNode? left = some text ∧ b.renderNode? right = some text) := by
  obtain ⟨va, hva⟩ := ha.exists_shows
  obtain ⟨vb, hvb⟩ := hb.exists_shows
  have hsame : a.renderNode? left = b.renderNode? right := by
    rw [renderNode?, renderNode?, if_pos hl, if_pos hr, ← Tree.text?_bare,
      (mismatch?_eq_none_iff hva hvb hl hr).1 h, Tree.text?_bare]
  refine ⟨hsame, ?_⟩
  rintro (hs | hs)
  · obtain ⟨node, hn⟩ := contains_iff.1 hl
    obtain ⟨text, htext⟩ := (hs.complete hva hn).exists_text?
    have hleft : a.renderNode? left = some text := by rw [renderNode?, if_pos hl, htext]
    exact ⟨text, hleft, hsame ▸ hleft⟩
  · obtain ⟨node, hn⟩ := contains_iff.1 hr
    obtain ⟨text, htext⟩ := (hs.complete hvb hn).exists_text?
    have hright : b.renderNode? right = some text := by rw [renderNode?, if_pos hr, htext]
    exact ⟨text, hsame ▸ hright, hright⟩

/-- A call that was built in two ways: on the right its name was replaced, the old one being left
behind, and the names have other numbers. -/
theorem reachable_renderNode?_of_mismatch?_replaced :
    let a := [Operation.intern "f", .intern "x", .alloc (.simpleName ⟨1⟩) ⟨0, 1⟩,
      .alloc (.simpleName ⟨2⟩) ⟨3, 4⟩, .alloc (.prefixExpression .minus ⟨1⟩) ⟨2, 4⟩,
      .alloc (.methodInvocation .absent ⟨0⟩ [⟨2⟩]) ⟨0, 5⟩].foldl Operation.perform .empty
    let b := [Operation.intern "g", .intern "x", .intern "f", .alloc (.simpleName ⟨2⟩) ⟨7, 8⟩,
      .alloc (.prefixExpression .minus ⟨0⟩) ⟨6, 8⟩, .alloc (.simpleName ⟨1⟩) ⟨0, 1⟩,
      .alloc (.methodInvocation .absent ⟨2⟩ [⟨1⟩]) ⟨0, 9⟩, .alloc (.simpleName ⟨3⟩) ⟨0, 0⟩,
      .replaceChild ⟨2⟩ ⟨4⟩].foldl Operation.perform .empty
    a.mismatch? ⟨3⟩ b ⟨3⟩ = none ∧
      ∃ text, a.renderNode? ⟨3⟩ = some text ∧ b.renderNode? ⟨3⟩ = some text := by
  intro a b
  have hmatch : a.mismatch? ⟨3⟩ b ⟨3⟩ = none := by decide +kernel
  have hsupplied : a.Supplied ⟨3⟩ := by decide +kernel
  exact ⟨hmatch, (reachable_renderNode?_of_mismatch? (Reachable.empty.performAll _)
    (Reachable.empty.performAll _) (by decide) (by decide) hmatch).2 (.inl hsupplied)⟩

end Arena

end JavaFold
