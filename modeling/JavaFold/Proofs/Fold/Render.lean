import JavaFold.Proofs.Fold.Shed
import JavaFold.Proofs.Layout.Whole

/-!
# Folded trees can be written

Nothing is missing in the tree of a source, and the rule takes nothing away that has to be there:
the parentheses that go leave their slot to a copy of what they enclose. So the tree under the root
stays complete (`Whole`), whichever nodes the rule is started from.
-/

namespace JavaFold

namespace Tree

variable {τ α ι κ : Type} {info : ι}

/-- Every slot of a complete tree is complete. -/
private theorem Complete.slotComplete {kind : NodeKind String (Tree ι)}
    (h : Complete (.node info kind))
    {slot : Property × Slot (Tree ι)} (hs : slot ∈ kind.slots) : SlotComplete kind.tag slot := by
  obtain ⟨filled, below⟩ := h
  obtain ⟨property, slot⟩ := slot
  cases slot with
  | one child =>
    cases child with
    | absent =>
      refine .inr ⟨rfl, ?_⟩
      by_contra ho
      cases filled.single hs (by simpa using ho)
    | node =>
      exact .inl (below _ (NodeKind.mem_occupants_iff.2 ⟨_, NodeKind.get?_single.2 hs⟩) nofun)
  | many children =>
    intro c hc
    obtain ⟨i, hi⟩ := List.mem_iff_getElem?.1 hc
    refine below c (NodeKind.mem_occupants_iff.2 ⟨_, NodeKind.get?_element.2 ⟨_, hs, hi⟩⟩) ?_
    rintro rfl
    cases filled.row hs _ hc

/-- A node stays complete if its children do. -/
theorem Complete.map_congr {kind : NodeKind τ α} {text : τ → String} {f : α → Tree ι}
    {g : α → Tree κ} {info' : κ} (h : Complete (.node info (kind.map text f)))
    (hg : ∀ c ∈ kind.occupants, (f c).Complete → (g c).Complete)
    (habsent : ∀ c ∈ kind.occupants, f c = .absent → g c = .absent) :
    Complete (.node info' (kind.map text g)) := by
  refine .of_slots fun slot hs => ?_
  rw [NodeKind.slots_map, List.mem_map] at hs
  obtain ⟨⟨property, slot⟩, hs, rfl⟩ := hs
  have hslot := h.slotComplete (by rw [NodeKind.slots_map]; exact List.mem_map_of_mem hs)
  rw [NodeKind.tag_map] at hslot ⊢
  cases slot with
  | one child =>
    have hc : child ∈ kind.occupants := NodeKind.mem_occupants_iff.2 ⟨_, NodeKind.get?_single.2 hs⟩
    exact hslot.imp (hg child hc) (And.imp_left (habsent child hc))
  | many children =>
    intro t ht
    obtain ⟨c, hc, rfl⟩ := List.mem_map.1 ht
    obtain ⟨i, hi⟩ := List.mem_iff_getElem?.1 hc
    exact hg c (NodeKind.mem_occupants_iff.2 ⟨_, NodeKind.get?_element.2 ⟨_, hs, hi⟩⟩)
      (hslot _ (List.mem_map_of_mem hc))

/-- Nothing goes missing with parentheses: what they enclose is there. -/
theorem Complete.of_sheds {tree tree' : Tree ι} (h : tree.Sheds tree') (hc : tree.Complete) :
    tree'.Complete := by
  induction h with
  | absent => exact hc
  | parentheses info inner =>
    exact (hc.slotComplete List.mem_cons_self).resolve_right fun h => nomatch h.2
  | node info below ih =>
    exact hc.map_congr ih fun c hc habsent => Sheds.eq_absent (habsent ▸ below c hc)

theorem Complete.of_mem_subtrees {tree part : Tree ι} (h : tree.Complete)
    (hp : part ∈ tree.subtrees) : part.Complete := by
  induction h with
  | @node info kind filled below ih =>
    rcases mem_subtrees_node.1 hp with rfl | ⟨c, hc, hp⟩
    · exact .node filled below
    · refine ih c hc ?_ hp
      rintro rfl
      simp at hp

end Tree

namespace Arena

variable {wide : Char → Bool} {goal : Goal} {source : String} {arena : Arena} {id : NodeId}

/-- Nothing is missing in the tree under the root. -/
structure Whole (arena : Arena) : Prop where
  /-- The arena shows a linked one. -/
  showing : arena.Showing
  /-- The tree under the root is complete. -/
  complete : (arena.spans arena.root).Complete

private theorem contains_of_complete (h : (arena.spans id).Complete) :
    arena.contains id = true := by
  cases hn : arena.node? id with
  | some node => exact contains_iff.2 ⟨node, hn⟩
  | none =>
    rw [spans, tree_of_node?_eq_none hn, Tree.mapInfo_absent] at h
    cases h

private theorem Whole.contains_root (h : arena.Whole) : arena.contains arena.root = true :=
  contains_of_complete h.complete

theorem Whole.rooted (h : arena.Whole) : arena.Rooted Tree.Complete :=
  ⟨h.showing, h.contains_root, h.complete⟩

/-- Nothing is missing in the tree of a source. -/
theorem whole_of_parseWith (h : parseWith wide goal source = .ok arena) : arena.Whole :=
  have hrooted := rooted_of_parseWith h fun _ => Grammar.complete_of_parseTreeWith
  ⟨hrooted.showing, hrooted.tree⟩

/-- The tree of every node under the root is complete. -/
theorem Whole.complete_of_mem (h : arena.Whole) (hid : id ∈ arena.descendants arena.root) :
    (arena.spans id).Complete :=
  (h.rooted.of_mem_descendants Tree.Complete.of_mem_subtrees hid).2

/-- A slot that must not be empty holds a node. -/
theorem Shows.contains_of_slot? {view : Arena} {node : Node} {property : Property} {child : NodeId}
    (h : arena.Shows view) (hn : arena.node? id = some node) (hc : (arena.spans id).Complete)
    (hslot : node.kind.slot? property = some child)
    (ho : node.tag.isOptional property = false) : arena.contains child = true := by
  rw [spans, ← h.tree_eq] at hc
  change (view.spans id).Complete at hc
  rw [h.linked.spans_eq (h.node?_eq_some hn)] at hc
  have hmem : (property, Slot.one (view.spans child)) ∈
      (node.kind.map view.names.lookup view.spans).slots := by
    rw [NodeKind.slots_map]
    exact List.mem_map_of_mem (NodeKind.slot?_eq_some.1 hslot)
  rcases hc.slotComplete hmem with hchild | ⟨-, hopt⟩
  · rw [← h.contains_eq]
    exact contains_of_complete hchild
  · rw [NodeKind.tag_map] at hopt
    cases ho.symm.trans hopt

theorem Whole.rewrites (h : arena.Whole) (sites : List NodeId) :
    (sites.foldl (fun arena site => (ParenthesizedLiteral.rewrite site).after arena)
      arena).Whole :=
  have hrooted := h.rooted.rewrites Tree.Complete.of_sheds sites
  ⟨hrooted.showing, hrooted.tree⟩

/-- In the tree of a source, after any number of rewritings from any nodes, no slot is empty that
must not be, and the tree and each of its nodes can be written. -/
theorem parseWith_rewrites_render (h : parseWith wide goal source = .ok arena)
    (sites : List NodeId) :
    let folded := sites.foldl
      (fun arena site => (ParenthesizedLiteral.rewrite site).after arena) arena
    folded.contains folded.root = true ∧
    (∀ id ∈ folded.descendants folded.root, ∃ node, folded.node? id = some node ∧
      ∀ property child, node.kind.slot? property = some child →
        node.tag.isOptional property = false → folded.contains child = true) ∧
    (∃ text, folded.render? = some text) ∧
    ∀ id ∈ folded.descendants folded.root, ∃ text, folded.renderNode? id = some text := by
  intro folded
  have hw : folded.Whole := (whole_of_parseWith h).rewrites sites
  obtain ⟨view, hv⟩ := hw.showing.shows
  refine ⟨hw.contains_root, fun id hid => ?_, hw.complete.of_mapInfo.exists_render?,
    fun id hid => ?_⟩
  · have hc := hw.complete_of_mem hid
    obtain ⟨node, hn⟩ := contains_iff.1 (contains_of_complete hc)
    exact ⟨node, hn, fun property child => hv.contains_of_slot? hn hc⟩
  · have hc := hw.complete_of_mem hid
    rw [renderNode?, if_pos (contains_of_complete hc)]
    exact hc.of_mapInfo.exists_text?

/-- A call with a literal in two pairs of parentheses, folded from the root and then from a node
that is no longer in the tree. -/
theorem parseWith_rewrites_render_call :
    ∃ arena folded, parse .expression "f(((1)), (x))" = .ok arena ∧
      folded = [arena.root, ⟨2⟩].foldl
        (fun arena site => (ParenthesizedLiteral.rewrite site).after arena) arena ∧
      folded.render? = some "f(1, (x))" ∧
      ∀ id ∈ folded.descendants folded.root, ∃ text, folded.renderNode? id = some text := by
  have hread : ((parse .expression "f(((1)), (x))").toOption.map fun arena =>
      ([arena.root, ⟨2⟩].foldl
        (fun arena site => (ParenthesizedLiteral.rewrite site).after arena) arena).render?) =
      some (some "f(1, (x))") := by
    decide +kernel
  cases h : parse .expression "f(((1)), (x))" with
  | error error => simp [h, Except.toOption] at hread
  | ok arena =>
    obtain ⟨-, -, -, hnodes⟩ := parseWith_rewrites_render h [arena.root, ⟨2⟩]
    exact ⟨arena, _, rfl, rfl, by simpa [h, Except.toOption] using hread, hnodes⟩

end Arena

end JavaFold
