import JavaFold.Proofs.Arena.Growth
import JavaFold.Proofs.Arena.Source
import JavaFold.Proofs.Fold.FixedPoint

/-!
# What the rule does to the tree under the root

Each time the rule replaces a node, the tree under the root loses one pair of parentheses and stays
as it is otherwise, down to the source ranges (`Tree.Sheds`). Nothing happens to it where the rule
is refused midway, or where there is no handle left for a copy. So whatever is true of the tree
under the root and cannot be lost with parentheses stays true (`Rooted`), whichever nodes the rule
is started from.
-/

namespace JavaFold

/-- One tree is another one without some of its parentheses. -/
inductive Tree.Sheds {ι : Type} : Tree ι → Tree ι → Prop where
  | absent : Sheds .absent .absent
  | parentheses (info : ι) (inner : Tree ι) :
    Sheds (.node info (.parenthesizedExpression inner)) inner
  | node {τ α : Type} (info : ι) {kind : NodeKind τ α} {text : τ → String} {f g : α → Tree ι}
    (below : ∀ c ∈ kind.occupants, Sheds (f c) (g c)) :
    Sheds (.node info (kind.map text f)) (.node info (kind.map text g))

theorem Tree.Sheds.eq_absent {ι : Type} {tree : Tree ι} (h : Sheds .absent tree) :
    tree = .absent := by
  cases h
  rfl

namespace Arena

variable {base arena : Arena} {id : NodeId} {P : Tree Span → Prop}

/-- Something is true of the tree under the root. -/
structure Rooted (P : Tree Span → Prop) (arena : Arena) : Prop where
  /-- The arena shows a linked one. -/
  showing : arena.Showing
  /-- There is a root. -/
  root : arena.contains arena.root = true
  /-- It is true of the tree. -/
  tree : P (arena.spans arena.root)

/-- What is true of every tree that a source is read as is true of the one that is stored. -/
theorem rooted_of_parseWith {wide : Char → Bool} {goal : Goal} {source : String}
    (h : parseWith wide goal source = .ok arena)
    (hP : ∀ tree, parseTreeWith wide goal source = .ok tree → P tree) : arena.Rooted P := by
  obtain ⟨tree, htree, hholds⟩ := holds_of_parseWith h
  have hl := hholds.built.linked
  refine ⟨⟨fun _ => hl, _, hl.shows⟩, hholds.rooted, ?_⟩
  rw [hholds.spans]
  exact hP tree htree

private theorem Rooted.of_retains (h : base.Rooted P) (hr : base.Retains arena)
    (ha : arena.Showing) :
    arena.Rooted P := by
  obtain ⟨node, hn⟩ := contains_iff.1 h.root
  obtain ⟨node', hn', -⟩ := hr.node? hn
  refine ⟨ha, ?_, ?_⟩
  · rw [hr.root]
    exact contains_iff.2 ⟨node', hn'⟩
  · rw [hr.root, spans, hr.tree_eq h.showing ha hn]
    exact h.tree

/-- The nodes under the root are there, and what is true of a tree and its parts is true of their
trees. -/
theorem Rooted.of_mem_descendants (h : arena.Rooted P)
    (hpart : ∀ {tree part : Tree Span}, P tree → part ∈ tree.subtrees → P part)
    (hid : id ∈ arena.descendants arena.root) :
    arena.contains id = true ∧ P (arena.spans id) := by
  obtain ⟨view, hv⟩ := h.showing.shows
  have hspans (x : NodeId) : view.spans x = arena.spans x := by rw [spans, spans, hv.tree_eq]
  obtain ⟨root, hroot⟩ := contains_iff.1 h.root
  rw [descendants, ← hv.tree_eq] at hid
  have hunder := (hv.linked.mem_descendants_iff (hv.node?_eq_some hroot)).1 hid
  obtain ⟨hcontains, hmem⟩ := hv.linked.spans_mem_subtrees (hv.node?_eq_some hroot) hunder
  rw [hspans, hspans] at hmem
  exact ⟨hv.contains_eq id ▸ contains_iff.2 hcontains, hpart h.tree hmem⟩

end Arena

namespace Edit

open Arena

variable {P : Tree Span → Prop}

/-- Copying leaves the tree under the root alone. -/
theorem rooted_copySubtree (id : NodeId) : Keeps (Rooted P) (copySubtree id) := by
  intro arena h
  exact h.of_retains (keeps_copySubtree retains_alloc id arena (.refl arena))
    (keeps_copySubtree shows_alloc id arena h.showing)

end Edit

namespace ParenthesizedLiteral

open Arena Edit

variable {arena arena' : Arena} {top x literal : NodeId} {node : Node} {P : Tree Span → Prop}

/-- A refused replacement changes nothing. -/
theorem eq_of_run_splice_error {old new : NodeId} {violation : Violation}
    (h : (splice old new).run arena = .error violation arena') : arena' = arena := by
  rw [splice, run_read_bind, run_ofExcept_bind] at h
  split at h
  next location _ =>
    cases location with
    | none =>
      rw [replaceRoot, run_setRoot] at h
      split at h <;> cases h
      rfl
    | some location =>
      rw [run_replaceChild] at h
      split at h <;> cases h
      rfl
  next =>
    cases h
    rfl

/-- Only a node that is the root or attached can be replaced. -/
theorem placed_of_run_splice {old new : NodeId} (h : (splice old new).run arena = .ok () arena') :
    ∃ node, arena.node? old = some node ∧
      (old = arena.root ∨ node.parent.isPresent = true) := by
  rw [splice, run_read_bind, run_ofExcept_bind] at h
  split at h
  next location hlocation => exact placed_of_locationOf hlocation
  next => cases h

private theorem Spliced.contains_replace (h : Spliced arena arena' top literal)
    (hn : arena.node? x = some node) :
    arena'.contains (NodeId.replace top literal x) = true := by
  rw [NodeId.replace]
  split
  next hx =>
    obtain ⟨node', hn', -⟩ := h.place (hx ▸ hn)
    exact contains_iff.2 ⟨node', hn'⟩
  next hx => exact contains_iff.2 ⟨_, h.others hn hx⟩

/-- A tree loses no more than the node that is replaced in it does. -/
theorem Spliced.sheds (h : Spliced arena arena' top literal) (hl : arena.Linked)
    (htop : top ≠ .absent) (hliteral : (arena.spans top).Sheds (arena'.spans literal))
    (hn : arena.node? x = some node) :
    (arena.spans x).Sheds (arena'.spans (NodeId.replace top literal x)) := by
  refine hl.byOccupants (motive := fun x =>
    (arena.spans x).Sheds (arena'.spans (NodeId.replace top literal x))) ?_ ?_ ⟨node, hn⟩
  · rw [NodeId.replace, if_neg htop.symm, spans_absent, spans_absent]
    exact .absent
  · intro x node hn ih
    rw [NodeId.replace]
    split
    next hx => exact hx ▸ hliteral
    next hx =>
      rw [hl.spans_eq hn, h.linked.spans_eq (h.others hn hx), NodeKind.map_map, h.names]
      exact .node node.span ih

/-- A copy of what parentheses enclose takes their place, or nothing happens. -/
theorem rooted_splice (hP : ∀ {tree tree' : Tree Span}, tree.Sheds tree' → P tree → P tree')
    {middle : Arena} {expression : NodeId} {inner : Node} (h : arena.Rooted P)
    (hn : arena.node? top = some node) (hkind : node.kind = .parenthesizedExpression expression)
    (hinner : arena.node? expression = some inner)
    (hcopy : (copySubtree expression).run arena = .ok literal middle) :
    ((splice top literal).after middle).Rooted P := by
  have hmiddle : middle.Rooted P := after_of_run_ok hcopy ▸ rooted_copySubtree expression arena h
  have hshowing := keeps_splice shows_replaceChild shows_setRoot top literal middle hmiddle.showing
  rw [after] at hshowing ⊢
  cases hrun : (splice top literal).run middle with
  | error v last =>
    cases eq_of_run_splice_error hrun
    exact hmiddle
  | ok u last =>
    rw [hrun] at hshowing
    -- a copy that takes a place has a handle, so there was one for every node
    have hs : middle.size ≤ NodeId.maxIndex := by
      have hcopy' := hcopy
      rw [copySubtree, run_read_bind, require_eq_ok.2 hinner] at hcopy'
      exact size_le_of_run_copyUpTo hcopy' (of_run_splice hrun).1
    have hgrown : arena.size ≤ middle.size := after_of_run_ok hcopy ▸
      keeps_copySubtree (fun kind span => grows_alloc kind span arena.size) expression arena
        (Nat.le_refl _)
    have hl := h.showing.small (Nat.le_trans hgrown hs)
    have hends := ends_copySubtree (E := fun _ => False) hl hinner
    rw [Ends, hcopy] at hends
    obtain ⟨hext, hcopied⟩ := hends hs
    obtain ⟨node', hn', hplace⟩ := placed_of_run_splice hrun
    cases Option.some.inj (hn'.symm.trans (hext.kept hn))
    rw [hext.root] at hplace
    obtain ⟨arena', hrun', hspliced, hspans⟩ := run_splice hl hn hplace hext hcopied
    cases hrun.symm.trans hrun'
    have hliteral : (arena.spans top).Sheds (last.spans literal) := by
      rw [hspans, hcopied.spans, hl.spans_eq hn, hkind]
      exact .parentheses node.span (arena.spans expression)
    obtain ⟨root, hroot⟩ := contains_iff.1 h.root
    refine ⟨hshowing, ?_, ?_⟩ <;> rw [hspliced.root]
    · exact hspliced.contains_replace hroot
    · exact hP (hspliced.sheds hl (NodeId.isPresent_iff.1 (isPresent_of_node? hn)) hliteral hroot)
        h.tree

/-- One node costs the tree under the root a pair of parentheses at most. -/
theorem rooted_collapse (hP : ∀ {tree tree' : Tree Span}, tree.Sheds tree' → P tree → P tree')
    (id : NodeId) : Keeps (Rooted P) (collapse id) := by
  intro arena h
  rw [collapse, after, run_read_bind, ← after]
  split
  next expression hkind =>
    obtain ⟨node, hn, hkind⟩ := Option.map_eq_some_iff.1 hkind
    cases hinner : arena.require expression with
    | error v => exact h
    | ok inner =>
      rw [after, run_bind_ok (run_ofExcept_ok _ _), ← after]
      split
      · refine after_bind_intro (rooted_copySubtree expression arena h)
          fun literal middle hcopy => ?_
        have hspliced := rooted_splice hP h hn hkind (require_eq_ok.1 hinner) hcopy
        exact after_bind_intro hspliced fun _ last hrun => after_of_run_ok hrun ▸ hspliced
      · exact h
  next => exact h

theorem rooted_rewrite (hP : ∀ {tree tree' : Tree Span}, tree.Sheds tree' → P tree → P tree')
    (site : NodeId) : Keeps (Rooted P) (rewrite site) :=
  .bind .read fun _ => .bind (.ofExcept _) fun _ => keeps_walk (rooted_collapse hP) site

end ParenthesizedLiteral

/-- What cannot be lost with parentheses stays true in any number of rewritings from any nodes. -/
theorem Arena.Rooted.rewrites {arena : Arena} {P : Tree Span → Prop} (h : arena.Rooted P)
    (hP : ∀ {tree tree' : Tree Span}, tree.Sheds tree' → P tree → P tree')
    (sites : List NodeId) :
    (sites.foldl (fun arena site => (ParenthesizedLiteral.rewrite site).after arena)
      arena).Rooted P := by
  induction sites generalizing arena with
  | nil => exact h
  | cons site rest ih => exact ih (ParenthesizedLiteral.rooted_rewrite hP site arena h)

end JavaFold
