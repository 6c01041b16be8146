import JavaFold.Proofs.Fold.Shed
import JavaFold.Proofs.Grammar.Spans

/-!
# Source ranges stay nested

A copy has the source ranges of what it was copied from, and what parentheses enclose stands between
them. So it fits into their place: in the tree of a source, before and after folding, the ranges of
children lie in the range of their parent, in order and apart from each other, and the texts of
names and literals are what stands in their ranges (`Spanned`).
-/

namespace JavaFold

namespace Tree

variable {source : String} {lo hi : Nat} {tree tree' : Tree Span}

/-- A tree without some of its parentheses fits wherever the tree does. -/
theorem Row.of_sheds (h : tree.Sheds tree') (hr : Row source lo hi [tree]) :
    Row source lo hi [tree'] := by
  induction h generalizing lo hi with
  | absent => exact hr
  | parentheses info inner =>
    cases hr with
    | node front extent back word inside after => exact inside.widen front back
  | node info below ih =>
    cases hr with
    | node front extent back word inside after =>
      rw [NodeKind.word?_map] at word
      exact .node front extent back (by rwa [NodeKind.word?_map])
        (inside.below_congr (Nat.le_of_lt extent) fun c hc => ih c hc) .nil

theorem Placed.of_sheds (h : tree.Sheds tree') (hp : tree.Placed source) :
    tree'.Placed source := by
  cases h with
  | absent => exact hp
  | parentheses info =>
    cases hp with
    | node extent back word inside => exact inside.placed back tree' List.mem_cons_self
  | node info below =>
    cases hp with
    | node extent back word inside =>
      rw [NodeKind.word?_map] at word
      exact .node extent back (by rwa [NodeKind.word?_map])
        (inside.below_congr extent fun c hc => Row.of_sheds (below c hc))

end Tree

namespace Arena

variable {wide : Char → Bool} {goal : Goal} {source : String} {arena view : Arena} {id : NodeId}
  {node : Node}

/-- A node stands in a source where its range says it does. -/
structure Spanned (arena : Arena) (source : String) (node : Node) : Prop where
  /-- The range does not end before it starts. -/
  extent : node.span.start ≤ node.span.stop
  /-- The range ends within the source. -/
  back : node.span.stop ≤ source.utf8ByteSize
  /-- Each child has a range within that of the node, and not an empty one. -/
  inside : ∀ entry ∈ node.kind.children, ∃ child, arena.node? entry.2 = some child ∧
    node.span.start ≤ child.span.start ∧ child.span.start < child.span.stop ∧
    child.span.stop ≤ node.span.stop
  /-- Each child ends before the next ones start. -/
  ordered : node.kind.children.Pairwise fun entry next => ∀ child ∈ arena.node? entry.2,
    ∀ later ∈ arena.node? next.2, child.span.stop ≤ later.span.start
  /-- The text of a name or a literal is what stands in its range. -/
  word : ∀ name ∈ node.kind.word?, node.span.slice? source = some (arena.names.lookup name)

private theorem Shows.spans_node (h : arena.Shows view) (hn : arena.node? id = some node) :
    arena.spans id = .node node.span (node.kind.map arena.names.lookup arena.spans) := by
  rw [spans, h.tree_node hn, Tree.mapInfo_node, NodeKind.map_map]
  rfl

/-- The children of a node are what its slots hold, but for empty slots. -/
theorem Shows.children_sublist (h : arena.Shows view) (hn : arena.node? id = some node) :
    (node.kind.children.map Prod.snd).Sublist node.kind.occupants := by
  have hpresent : (node.kind.children.map Prod.snd).filter Occupant.isPresent =
      node.kind.children.map Prod.snd := by
    refine List.filter_eq_self.2 fun c hc => ?_
    obtain ⟨⟨location, c⟩, hmem, rfl⟩ := List.mem_map.1 hc
    obtain ⟨child, hchild⟩ := contains_iff.1 (h.contains_of_mem_children hn hmem)
    exact isPresent_of_node? hchild
  rw [← hpresent, ← NodeKind.filter_occupants]
  exact List.filter_sublist

/-- A node stands where its tree does. -/
theorem Shows.spanned (h : arena.Shows view) (hn : arena.node? id = some node)
    (hp : (arena.spans id).Placed source) : arena.Spanned source node := by
  rw [h.spans_node hn] at hp
  cases hp with
  | node extent back word inside =>
    rw [NodeKind.occupants_map] at inside
    refine ⟨extent, back, fun entry he => ?_, ?_, fun name hname => word _ ?_⟩
    · obtain ⟨child, hchild⟩ := contains_iff.1 (h.contains_of_mem_children hn he)
      refine ⟨child, hchild, inside.within _ ?_ (h.spans_node hchild)⟩
      exact List.mem_map_of_mem (NodeKind.mem_occupants_of_mem_children he)
    · have hordered := List.pairwise_map.1 (inside.ordered.sublist
        ((h.children_sublist hn).map arena.spans))
      refine (List.pairwise_map.1 hordered).imp fun hbefore child hchild later hlater => ?_
      exact hbefore (h.spans_node hchild) (h.spans_node hlater)
    · rw [NodeKind.word?_map]
      exact Option.mem_map_of_mem _ hname

/-- In the tree of a source, also after any number of rewritings from any nodes, every node stands
where its range says it does. -/
theorem parseWith_rewrites_spanned (h : parseWith wide goal source = .ok arena)
    (sites : List NodeId) :
    let folded := sites.foldl
      (fun arena site => (ParenthesizedLiteral.rewrite site).after arena) arena
    folded.root ∈ folded.descendants folded.root ∧
    ∀ id ∈ folded.descendants folded.root, ∃ node, folded.node? id = some node ∧
      folded.Spanned source node := by
  intro folded
  have hrooted : folded.Rooted (Tree.Placed source) :=
    (rooted_of_parseWith h fun _ => Grammar.placed_of_parseTreeWith).rewrites
      Tree.Placed.of_sheds sites
  obtain ⟨view, hv⟩ := hrooted.showing.shows
  constructor
  · obtain ⟨root, hroot⟩ := contains_iff.1 hrooted.root
    rw [hv.descendants_node hroot]
    exact List.mem_cons_self
  · intro id hid
    obtain ⟨hcontains, hplaced⟩ := hrooted.of_mem_descendants Tree.Placed.of_mem_subtrees hid
    obtain ⟨node, hn⟩ := contains_iff.1 hcontains
    exact ⟨node, hn, hv.spanned hn hplaced⟩

/-- A call with a literal in two pairs of parentheses, folded from the root and then from a node
that is no longer in the tree. -/
theorem parseWith_rewrites_spanned_call :
    ∃ arena folded, parse .expression "f(((1)), (x))" = .ok arena ∧
      folded = [arena.root, ⟨2⟩].foldl
        (fun arena site => (ParenthesizedLiteral.rewrite site).after arena) arena ∧
      folded.render? = some "f(1, (x))" ∧ folded.root ∈ folded.descendants folded.root ∧
      ∀ id ∈ folded.descendants folded.root, ∃ node, folded.node? id = some node ∧
        folded.Spanned "f(((1)), (x))" node := by
  have hread : ((parse .expression "f(((1)), (x))").toOption.map fun arena =>
      ([arena.root, ⟨2⟩].foldl
        (fun arena site => (ParenthesizedLiteral.rewrite site).after arena) arena).render?) =
      some (some "f(1, (x))") := by
    decide +kernel
  cases h : parse .expression "f(((1)), (x))" with
  | error error => simp [h, Except.toOption] at hread
  | ok arena =>
    exact ⟨arena, _, rfl, rfl, by simpa [h, Except.toOption] using hread,
      parseWith_rewrites_spanned h [arena.root, ⟨2⟩]⟩

end Arena

end JavaFold
