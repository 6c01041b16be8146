import JavaFold.Proofs.Arena.Overfull

/-!
# The way down and the way up

A walk over the nodes under a node goes by the children that each node holds, while the search for
an ancestor goes by the parent that each node records. The walk is stated as it is made, one node at
a time with the nodes that are still to be visited (`Walks`). In an arena that operations lead to it
comes to an end, visits each node once, after its parent and together with the nodes under it, and
meets exactly the nodes from which the way up leads back (`Descent`).
-/

namespace JavaFold.Arena

variable {arena arena' view : Arena} {id x parent : NodeId} {node : Node}
  {pending out : List NodeId}

/-- A walk that visits the children of a node right after it, before what was pending. -/
inductive Walks (arena : Arena) : (pending out : List NodeId) → Prop where
  /-- There is nothing left to visit. -/
  | done : Walks arena [] []
  /-- The next node is visited, then its children in their order. -/
  | enter {id : NodeId} {children : List (Location × NodeId)} {pending out : List NodeId}
    (here : arena.children? id = some children)
    (rest : Walks arena (children.map Prod.snd ++ pending) out) :
    Walks arena (id :: pending) (id :: out)

/-- A walk has one outcome. -/
theorem Walks.unique {out' : List NodeId} (h : arena.Walks pending out)
    (h' : arena.Walks pending out') : out' = out := by
  induction h generalizing out' with
  | done =>
    cases h'
    rfl
  | enter here _ ih =>
    cases h' with
    | enter here' rest' =>
      cases Option.some.inj (here.symm.trans here')
      rw [ih rest']

theorem Walks.congr (h : arena.Walks pending out)
    (hc : ∀ x, arena'.children? x = arena.children? x) : arena'.Walks pending out := by
  induction h with
  | done => exact .done
  | enter here _ ih => exact .enter ((hc _).trans here) ih

/-- What the way down from a node is like. -/
structure Descent (arena : Arena) (id : NodeId) (ids : List NodeId) : Prop where
  /-- The walk comes to an end. -/
  walks : arena.Walks [id] ids
  /-- The walk meets nothing else. -/
  only : ∀ {out}, arena.Walks [id] out → out = ids
  /-- No node is met twice. -/
  nodup : ids.Nodup
  /-- The walk starts at the node. -/
  first : ids.head? = some id
  /-- Every other node comes after its parent. -/
  later : ∀ {x}, x ∈ ids → x ≠ id →
    ∃ parent, arena.parent? x = some parent ∧ [parent, x].Sublist ids
  /-- The nodes under a node follow one another. -/
  contiguous : ∀ {x}, x ∈ ids → arena.descendants x <:+: ids
  /-- The nodes under the children of a node come in the order of the children. -/
  siblings : ∀ {x}, x ∈ ids → ∃ children, arena.children? x = some children ∧
    arena.descendants x = x :: (children.map Prod.snd).flatMap arena.descendants
  /-- The way up from a node leads back exactly if it is met on the way down. -/
  above : ∀ {x}, arena.contains x = true →
    (x ∈ ids ↔ arena.isAncestorOrSelf? id x = some true)

namespace Linked

/-- The nodes under a child are met one after the other. -/
theorem descendants_infix_of_parent? (hl : arena.Linked) (hp : arena.parent? x = some parent) :
    arena.descendants x <:+: arena.descendants parent := by
  obtain ⟨node, hn⟩ := hl.parent_contained hp
  rw [hl.descendants_eq hn]
  have hx := hl.mem_occupants_of_parent? hp hn
  have hrow : arena.descendants x <:+: node.kind.occupants.flatMap arena.descendants :=
    List.infix_of_mem_flatten (List.mem_map_of_mem hx)
  exact hrow.trans (List.suffix_cons ..).isInfix

private theorem descendants_infix (hl : arena.Linked) (hu : arena.Under id x) :
    arena.descendants x <:+: arena.descendants id := by
  induction hu with
  | self => exact List.infix_rfl
  | step hp _ ih => exact (hl.descendants_infix_of_parent? hp).trans ih

/-- Below the top, every node is met after its parent. -/
theorem parent_before (hl : arena.Linked) (hn : arena.node? id = some node)
    (hx : x ∈ arena.descendants id) (hne : x ≠ id) :
    ∃ parent, arena.parent? x = some parent ∧ [parent, x].Sublist (arena.descendants id) := by
  cases (hl.mem_descendants_iff hn).1 hx with
  | self => exact absurd rfl hne
  | @step _ parent hp hu =>
    refine ⟨parent, hp, List.Sublist.trans ?_ (hl.descendants_infix hu).sublist⟩
    obtain ⟨pnode, hpn⟩ := hl.parent_contained hp
    obtain ⟨xnode, hxn, -⟩ := parent?_eq_some.1 hp
    have hbelow : x ∈ arena.descendants parent := (hl.mem_descendants_iff hpn).2 (.step hp .self)
    rw [hl.descendants_eq hpn] at hbelow ⊢
    refine List.Sublist.cons_cons _ (List.singleton_sublist.2 ?_)
    refine (List.mem_cons.1 hbelow).resolve_left ?_
    rintro rfl
    exact hl.not_under_parent hp .self

/-! ## The walk -/

/-- A row of nodes is walked over if each of them is. -/
theorem walks_flatMap {cs : List NodeId}
    (hcs : ∀ c ∈ cs, ∀ pending out, arena.Walks pending out →
      arena.Walks (c :: pending) (arena.descendants c ++ out))
    (hw : arena.Walks pending out) :
    arena.Walks (cs ++ pending) (cs.flatMap arena.descendants ++ out) := by
  induction cs with
  | nil => exact hw
  | cons c cs ih =>
    rw [List.flatMap_cons, List.append_assoc]
    exact hcs c List.mem_cons_self _ _ (ih fun d hd => hcs d (List.mem_cons_of_mem c hd))

/-- The walk visits the nodes under the next node before what is pending. -/
theorem walks_cons (hl : arena.Linked) (hn : arena.node? id = some node)
    (hw : arena.Walks pending out) :
    arena.Walks (id :: pending) (arena.descendants id ++ out) := by
  have hid : id ≠ .absent := NodeId.isPresent_iff.1 (isPresent_of_node? hn)
  suffices hall : ∀ pending out, arena.Walks pending out →
      arena.Walks (id :: pending) (arena.descendants id ++ out) from hall _ _ hw
  refine hl.byOccupants (motive := fun id => id ≠ .absent → ∀ pending out,
    arena.Walks pending out → arena.Walks (id :: pending) (arena.descendants id ++ out))
    (fun h => absurd rfl h) ?_ ⟨node, hn⟩ hid
  intro id node hn ih _ pending out hw
  rw [hl.descendants_eq_children hn]
  refine .enter (by rw [children?, hn, Option.map_some]) (walks_flatMap (fun c hc => ?_) hw)
  have hp := hl.parent?_of_mem_children hn hc
  obtain ⟨child, hchild, -⟩ := parent?_eq_some.1 hp
  have hca : c ≠ .absent := NodeId.isPresent_iff.1 (isPresent_of_node? hchild)
  exact ih c (hl.mem_occupants_of_parent? hp hn) hca

end Linked

namespace Shows

private theorem children?_eq (h : arena.Shows view) (x : NodeId) :
    view.children? x = arena.children? x := by
  rw [children?, children?, h.node?]
  cases arena.node? x <;> rfl

theorem descendants_eq (h : arena.Shows view) (id : NodeId) :
    view.descendants id = arena.descendants id := by
  rw [descendants, descendants, h.tree_eq]

/-- The nodes of a subtree are those of the walk, by induction on the tree that is seen. -/
private theorem descent (h : arena.Shows view) (hn : arena.node? id = some node) :
    Descent arena id (arena.descendants id) := by
  have hl := h.linked
  have hvn := h.node?_eq_some hn
  have hwalks : arena.Walks [id] (arena.descendants id) := by
    have hw := hl.walks_cons hvn .done
    rw [List.append_nil, h.descendants_eq] at hw
    exact hw.congr fun x => (h.children?_eq x).symm
  have hmem {x : NodeId} : x ∈ arena.descendants id ↔ arena.Under id x := by
    rw [← h.descendants_eq, hl.mem_descendants_iff hvn, h.under_iff]
  refine {
    walks := hwalks
    only := fun hw => hwalks.unique hw
    nodup := ?nodup
    first := ?first
    later := ?later
    contiguous := ?contiguous
    siblings := ?siblings
    above := ?above }
  case nodup =>
    rw [← h.descendants_eq]
    exact hl.descendants_nodup hvn
  case first => rw [← h.descendants_eq, hl.descendants_eq hvn, List.head?_cons]
  case later =>
    intro x hx hne
    rw [← h.descendants_eq] at hx
    obtain ⟨parent, hp, hbefore⟩ := hl.parent_before hvn hx hne
    rw [h.parent?_eq] at hp
    rw [h.descendants_eq] at hbefore
    exact ⟨parent, hp, hbefore⟩
  case contiguous =>
    intro x hx
    rw [← h.descendants_eq, ← h.descendants_eq]
    exact hl.descendants_infix (h.under_iff.2 (hmem.1 hx))
  case siblings =>
    intro x hx
    have hu := h.under_iff.2 (hmem.1 hx)
    obtain ⟨xnode, hxn⟩ := hu.exists_node? hvn
    refine ⟨xnode.kind.children, by rw [← h.children?_eq, children?, hxn, Option.map_some], ?_⟩
    have hchildren := hl.descendants_eq_children hxn
    rw [h.descendants_eq, List.flatMap_congr fun c _ => h.descendants_eq c] at hchildren
    exact hchildren
  case above =>
    intro x hx
    obtain ⟨xnode, hxn⟩ := contains_iff.1 hx
    rw [hmem, isAncestorOrSelf?, hx, Bool.or_true, if_pos rfl, Option.some.injEq,
      h.isAncestorOrSelf_iff hxn]

end Shows

/-- In every arena that operations lead to, the walk down from a node ends, meets each node once, in
an order that keeps subtrees together, and meets exactly the nodes from which the way up leads
back. -/
theorem reachable_descendants (h : arena.Reachable) (hc : arena.contains id = true) :
    Descent arena id (arena.descendants id) := by
  obtain ⟨view, hshows⟩ := h.exists_shows
  obtain ⟨node, hn⟩ := contains_iff.1 hc
  exact hshows.descent hn

/-- One statement of a block was replaced by a node that is younger than the block. -/
theorem reachable_descendants_replaced :
    let arena := [Operation.alloc .nullLiteral ⟨1, 5⟩, .alloc (.returnStatement ⟨0⟩) ⟨1, 6⟩,
      .alloc .emptyStatement ⟨6, 7⟩, .alloc (.block [⟨1⟩, ⟨2⟩]) ⟨0, 8⟩,
      .alloc .breakStatement ⟨1, 6⟩, .replaceChild ⟨1⟩ ⟨4⟩].foldl Operation.perform .empty
    Descent arena ⟨3⟩ [⟨3⟩, ⟨4⟩, ⟨2⟩] ∧ arena.isAncestorOrSelf? ⟨3⟩ ⟨1⟩ ≠ some true := by
  intro arena
  have hids : arena.descendants ⟨3⟩ = [⟨3⟩, ⟨4⟩, ⟨2⟩] := by decide +kernel
  have hdescent : Descent arena ⟨3⟩ (arena.descendants ⟨3⟩) :=
    reachable_descendants (Reachable.empty.performAll _) (by decide)
  rw [hids] at hdescent
  refine ⟨hdescent, fun hup => ?_⟩
  have hmem := (hdescent.above (x := ⟨1⟩) (by decide)).2 hup
  simp at hmem

end JavaFold.Arena
