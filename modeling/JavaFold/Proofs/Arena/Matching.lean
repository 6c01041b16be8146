import JavaFold.Proofs.Arena.Overfull
import JavaFold.Proofs.Arena.RoundTrip

/-!
# The comparison decides equality of trees

`SameTree` says of two nodes, each in an arena of its own, that the trees under them are the same:
the kinds have the same tag, the same attributes and the same texts, and hold the same trees at the
same locations. It is stated on the nodes themselves, level by level, without a tree in between. In
arenas that operations lead to, the comparison of subtrees decides it, whatever the number of nodes.
-/

namespace JavaFold

namespace NodeKind

variable {τ σ ρ α β γ : Type}

/-- The attributes have nothing to do with the children. -/
theorem attributes_map (text : τ → σ) (child : α → β) (kind : NodeKind τ α) :
    (kind.map text child).attributes = (kind.map text fun _ => ()).attributes := by
  have hmap {γ : Type} (f : α → γ) : kind.map text f = (kind.map text id).map id f := by
    rw [map_map]
    rfl
  rw [hmap child, hmap fun _ => (), attributes_map_child, attributes_map_child]

/-- Kinds of one shape are equal after their children are replaced, if this makes the children at
every location equal. -/
theorem map_eq_map {a : NodeKind τ α} {b : NodeKind σ β} {text : τ → ρ} {text' : σ → ρ}
    {child : α → γ} {child' : β → γ}
    (shape : a.map text (fun _ => ()) = b.map text' fun _ => ())
    (below : ∀ {location c d}, a.get? location = some c → b.get? location = some d →
      child c = child' d) : a.map text child = b.map text' child' := by
  refine ext_get? ?_ ?_ fun location => ?_
  · have htag := congrArg tag shape
    rwa [tag_map, tag_map] at htag ⊢
  · rw [attributes_map, attributes_map _ _ b, shape]
  · have hheld := congrArg (·.get? location) shape
    simp only [get?_map] at hheld ⊢
    cases hc : a.get? location with
    | none =>
      cases hd : b.get? location with
      | none => rfl
      | some d => simp [hc, hd] at hheld
    | some c =>
      cases hd : b.get? location with
      | none => simp [hc, hd] at hheld
      | some d => rw [Option.map_some, Option.map_some, below hc hd]

end NodeKind

namespace Arena

variable {a b : Arena} {x y left right : NodeId}

/-- The trees under two nodes, or under two empty slots, are the same. -/
inductive SameTree (a b : Arena) : NodeId → NodeId → Prop where
  /-- Two empty slots. -/
  | absent : SameTree a b .absent .absent
  /-- Two nodes of one tag with the same attributes, texts and numbers of children, which hold the
  same trees at every location. -/
  | node {x y : NodeId} {m n : Node} (left : a.node? x = some m) (right : b.node? y = some n)
    (shape : m.kind.map a.names.lookup (fun _ => ()) = n.kind.map b.names.lookup fun _ => ())
    (below : ∀ {location c d}, m.kind.get? location = some c → n.kind.get? location = some d →
      SameTree a b c d) : SameTree a b x y

/-! ## Looking at trees through the linked arena that is shown -/

namespace Shows

variable {arena view : Arena} {id : NodeId} {node : Node}

/-- The tree of a node, without handles and source ranges, is made of the trees of its children. -/
theorem bare_eq (h : arena.Shows view) (hn : arena.node? id = some node) :
    (arena.tree id).bare =
      .node .nowhere (node.kind.map arena.names.lookup fun c => (arena.tree c).bare) := by
  rw [← h.tree_eq, h.linked.tree_eq (h.node?_eq_some hn), Tree.bare_node, NodeKind.map_map, h.names]
  refine congrArg _ (NodeKind.map_congr fun c _ => ?_)
  rw [Function.comp_apply, h.tree_eq]

/-- What a location holds is a node, or no node. -/
theorem contains_of_get? (h : arena.Shows view) (hn : arena.node? id = some node)
    {location : Location} {c : NodeId} (hc : node.kind.get? location = some c) :
    c = .absent ∨ arena.contains c = true := by
  have hmem : c ∈ node.settled.kind.occupants := NodeKind.mem_occupants_iff.2 ⟨location, hc⟩
  rcases h.linked.occupant_cases (h.node?_eq_some hn) hmem with rfl | ⟨-, child, -, hchild, -⟩
  · exact .inl rfl
  · exact .inr (by rw [← h.contains_eq, contains_iff]; exact ⟨child, hchild⟩)

end Shows

/-- The comparison finds nothing exactly if the trees differ only in handles and source ranges. -/
theorem mismatch?_eq_none_iff {va vb : Arena} (ha : a.Shows va) (hb : b.Shows vb)
    (hl : a.contains left = true) (hr : b.contains right = true) :
    a.mismatch? left b right = none ↔ (a.tree left).bare = (b.tree right).bare := by
  have hshown : a.mismatch? left b right = va.mismatch? left vb right := by
    simp only [mismatch?, ha.contains_eq, hb.contains_eq, ha.tree_eq, hb.tree_eq]
  constructor
  · intro h
    rw [hshown] at h
    rw [← ha.tree_eq, ← hb.tree_eq]
    exact bare_eq_of_mismatch? ha.linked hb.linked (by rwa [ha.contains_eq])
      (by rwa [hb.contains_eq]) h
  · exact mismatch?_eq_none hl hr

/-- Nodes with the same tree have the same tree by the links. -/
theorem SameTree.bare_eq {va vb : Arena} (ha : a.Shows va) (hb : b.Shows vb)
    (h : SameTree a b x y) : (a.tree x).bare = (b.tree y).bare := by
  induction h with
  | absent => rw [tree_absent, tree_absent]
  | node hx hy shape below ih =>
    rw [ha.bare_eq hx, hb.bare_eq hy]
    exact congrArg _ (NodeKind.map_eq_map shape fun hc hd => ih hc hd)

/-- Nodes whose trees are the same without places are the tops of the same tree, by induction on the
tree of the first. -/
private theorem sameTree_of_bare_eq {va vb : Arena} (ha : a.Shows va) (hb : b.Shows vb)
    (hx : a.contains x = true) (hy : y = .absent ∨ b.contains y = true)
    (h : (a.tree x).bare = (b.tree y).bare) : SameTree a b x y := by
  rw [← ha.contains_eq, contains_iff] at hx
  revert y
  refine ha.linked.byOccupants (motive := fun x => ∀ {y}, y = .absent ∨ b.contains y = true →
    (a.tree x).bare = (b.tree y).bare → SameTree a b x y) ?_ ?_ hx
  · rintro y (rfl | hy) h
    · exact .absent
    · obtain ⟨n, hn⟩ := contains_iff.1 hy
      rw [tree_absent, hb.bare_eq hn] at h
      cases h
  · intro x m' hm' ih y hy h
    obtain ⟨m, hm, rfl⟩ := ha.exists_node? hm'
    rw [ha.bare_eq hm] at h
    rcases hy with rfl | hy
    · rw [tree_absent] at h
      cases h
    · obtain ⟨n, hn⟩ := contains_iff.1 hy
      rw [hb.bare_eq hn, Tree.node.injEq] at h
      refine .node hm hn ?_ fun {location c d} hc hd => ?_
      · have hshape := congrArg (NodeKind.map id fun _ => ()) h.2
        rwa [NodeKind.map_map, NodeKind.map_map] at hshape
      · have hheld := congrArg (·.get? location) h.2
        simp only [NodeKind.get?_map, hc, hd, Option.map_some, Option.some.injEq] at hheld
        exact ih c (NodeKind.mem_occupants_iff.2 ⟨location, hc⟩) (hb.contains_of_get? hn hd) hheld

private theorem Reachable.subtreesMatch_iff_bare (ha : a.Reachable) (hb : b.Reachable)
    (hl : a.contains left = true) (hr : b.contains right = true) :
    a.subtreesMatch left b right = true ↔ (a.tree left).bare = (b.tree right).bare := by
  obtain ⟨va, hva⟩ := ha.exists_shows
  obtain ⟨vb, hvb⟩ := hb.exists_shows
  rw [subtreesMatch, Option.isNone_iff_eq_none, mismatch?_eq_none_iff hva hvb hl hr]

/-- The comparison of subtrees decides whether the trees are the same, in any two arenas that
operations lead to. So it is an equivalence across such arenas. -/
theorem reachable_subtreesMatch (ha : a.Reachable) (hb : b.Reachable)
    (hl : a.contains left = true) (hr : b.contains right = true) :
    (a.subtreesMatch left b right = true ↔ SameTree a b left right) ∧
    a.subtreesMatch left a left = true ∧
    b.subtreesMatch right a left = a.subtreesMatch left b right ∧
    ∀ c : Arena, c.Reachable → ∀ third, c.contains third = true →
      a.subtreesMatch left b right = true → b.subtreesMatch right c third = true →
      a.subtreesMatch left c third = true := by
  refine ⟨?_, ?_, ?_, ?_⟩
  · obtain ⟨va, hva⟩ := ha.exists_shows
    obtain ⟨vb, hvb⟩ := hb.exists_shows
    rw [ha.subtreesMatch_iff_bare hb hl hr]
    exact ⟨sameTree_of_bare_eq hva hvb hl (.inr hr), SameTree.bare_eq hva hvb⟩
  · rw [ha.subtreesMatch_iff_bare ha hl hl]
  · rw [Bool.eq_iff_iff, ha.subtreesMatch_iff_bare hb hl hr, hb.subtreesMatch_iff_bare ha hr hl]
    exact eq_comm
  · intro c hc third ht
    rw [ha.subtreesMatch_iff_bare hb hl hr, hb.subtreesMatch_iff_bare hc hr ht,
      ha.subtreesMatch_iff_bare hc hl ht]
    exact Eq.trans

/-- Names are compared by their texts: the name `x` has different numbers in the two arenas, and the
number of `x` in the second one is that of `y` in the first one. -/
theorem reachable_subtreesMatch_names :
    let a := [Operation.intern "y", .intern "x", .alloc (.simpleName ⟨1⟩) ⟨0, 1⟩,
      .alloc (.simpleName ⟨2⟩) ⟨2, 3⟩].foldl Operation.perform .empty
    let b := [Operation.intern "x", .alloc (.simpleName ⟨1⟩) ⟨7, 8⟩].foldl Operation.perform .empty
    a.subtreesMatch ⟨1⟩ b ⟨0⟩ = true ∧ a.subtreesMatch ⟨0⟩ b ⟨0⟩ = false := by
  intro a b
  have ha : a.Reachable := Reachable.empty.performAll _
  have hb : b.Reachable := Reachable.empty.performAll _
  have hcontains : a.contains ⟨0⟩ = true ∧ a.contains ⟨1⟩ = true ∧ b.contains ⟨0⟩ = true := by
    decide
  have hy : a.node? ⟨0⟩ = some ⟨.simpleName ⟨1⟩, ⟨0, 1⟩, .absent, none⟩ := by decide
  have hx : a.node? ⟨1⟩ = some ⟨.simpleName ⟨2⟩, ⟨2, 3⟩, .absent, none⟩ := by decide
  have hx' : b.node? ⟨0⟩ = some ⟨.simpleName ⟨1⟩, ⟨7, 8⟩, .absent, none⟩ := by decide
  constructor
  · refine (reachable_subtreesMatch ha hb hcontains.2.1 hcontains.2.2).1.2 (.node hx hx' ?_ ?_)
    · decide +kernel
    · intro location c d hc
      cases location <;> cases hc
  · rw [← Bool.not_eq_true, (reachable_subtreesMatch ha hb hcontains.1 hcontains.2.2).1]
    intro hsame
    cases hsame with
    | node hm hn shape _ =>
      cases Option.some.inj (hy.symm.trans hm)
      cases Option.some.inj (hx'.symm.trans hn)
      revert shape
      decide +kernel

end Arena

end JavaFold
