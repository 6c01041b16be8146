import JavaFold.Proofs.Arena.FullTree
import JavaFold.Proofs.Node.Children

/-!
# Replacing a child and replacing it back

A replacement writes to three nodes: the parent holds another child at one location, the old child
loses its links, and the new child takes them over (`Exchanged`). The parent lies under neither of
the two, so the opposite replacement can always be made, and it undoes the first one.

With more nodes than handles there is one thing that is not given back: the node whose index is the
handle of no node leaves its children parentless but located, and such a child loses its location
when it is attached and detached again. So the opposite replacement is said to lead to the first
arena with the new child unlinked. That changes nothing as long as every node has a handle of its
own (`reachable_replaceChild_undone`), and it does change such a child
(`replaceChild_undone_fullTree`).
-/

namespace JavaFold.Arena

variable {arena arena' view : Arena} {id x old new parent : NodeId} {location : Location}
  {node : Node} {kind : ArenaKind}

/-- A node has taken the place of another one. -/
structure Exchanged (arena arena' : Arena) (old new parent : NodeId) (location : Location) :
    Prop where
  /-- The old child was held at the location. -/
  held : arena.parent? old = some parent ∧ arena.location? old = some location
  /-- The old child is neither attached nor the root. -/
  detached : arena'.isDetached? old = some true ∧ arena'.location? old = none
  /-- The tree under the old child is as it was. -/
  subtree : arena'.tree old = arena.tree old
  /-- The new child is held at the location. -/
  placed : arena'.parent? new = some parent ∧ arena'.location? new = some location
  /-- Of the children of the parent, one entry is another one. -/
  children : ∃ before after, arena.children? parent = some (before ++ (location, old) :: after) ∧
    arena'.children? parent = some (before ++ (location, new) :: after)
  /-- Only the parent is of another kind, and only the two children are linked in another way. -/
  kept : ∀ {x node}, arena.node? x = some node → ∃ node', arena'.node? x = some node' ∧
    node'.span = node.span ∧
    node'.kind = (if x = parent then node.kind.set location new else node.kind) ∧
    (x ≠ old → x ≠ new → node'.parent = node.parent ∧ node'.location = node.location)
  /-- There are as many nodes as before. -/
  size : arena'.size = arena.size
  /-- The root is the same. -/
  root : arena'.root = arena.root
  /-- The texts are the same. -/
  names : arena'.names = arena.names

/-! ## The first replacement -/

/-- What a replacement that is accepted changes, and what it leaves as it was. -/
private theorem Shows.exchanged (h : arena.Shows view)
    (hr : arena.Replaceable old new parent location) :
    Exchanged arena (arena.replaced old new parent location) old new parent location := by
  have hne := hr.ne
  have hparent := hr.attached.parent?_eq
  obtain ⟨onode, pnode, hon, hor, hop, hol, hpn, hget⟩ := hr.attached
  obtain ⟨nnode, hnn, hnp⟩ := hr.parentless
  have hpp : parent.isPresent = true := isPresent_of_node? hpn
  refine {
    held := ⟨hparent, ?held⟩
    detached := ⟨?detached, ?unplaced⟩
    subtree := ?subtree
    placed := ⟨?attached, ?placed⟩
    children := ?children
    kept := ?kept
    size := size_replaced
    root := rfl
    names := rfl }
  case held => rw [location?, hon, Option.bind_some, hol]
  case detached =>
    rw [isDetached?, root_replaced, if_neg hor, node?_replaced, hon]
    simp [hne.symm]
  case unplaced =>
    rw [location?, node?_replaced, hon]
    simp [hne.symm]
  case subtree =>
    refine h.tree_congr_outside (h.replaced (h.replaceable hr)) rfl hon (h.not_under_parent hparent)
      fun hy hne => ?_
    rw [node?_replaced, hy, Option.map_some, if_neg hne]
    exact ⟨_, rfl, rfl, rfl⟩
  case attached =>
    rw [parent?, node?_replaced, hnn]
    simp [NodeId.present?, hpp]
  case placed =>
    rw [location?, node?_replaced, hnn]
    simp
  case children =>
    obtain ⟨before, after, hbefore, hset, -⟩ :=
      NodeKind.exists_children_cut hget (isPresent_of_node? hon)
    refine ⟨before, after, by rw [children?, hpn, Option.map_some, hbefore], ?_⟩
    rw [children?, node?_replaced, hpn, Option.map_some, Option.map_some, if_pos rfl,
      hset new (isPresent_of_node? hnn)]
  case kept =>
    intro y ynode hy
    refine ⟨_, by rw [node?_replaced, hy, Option.map_some], ?_, ?_, fun ho hn => ?_⟩
    · rfl
    · rfl
    · simp [ho, hn]

/-! ## The opposite replacement -/

/-- After a replacement the opposite one can be made. -/
theorem Shows.replaceable_back (h : arena.Shows view)
    (hr : arena.Replaceable old new parent location) :
    (arena.replaced old new parent location).Replaceable new old parent location := by
  have hne := hr.ne
  have habove {x : NodeId} (hu : arena.Under x parent) : x ≠ old ∧ x ≠ new :=
    (h.replaceable hr).parent_not_under h.linked (h.under_iff.2 hu)
  obtain ⟨onode, pnode, hon, hor, hop, hol, hpn, hget⟩ := hr.attached
  obtain ⟨nnode, hnn, hnp⟩ := hr.parentless
  have hattached : (arena.replaced old new parent location).AttachedAt new parent location := by
    refine ⟨_, _, by rw [node?_replaced, hnn, Option.map_some], hr.ne_root, by simp, by simp,
      by rw [node?_replaced, hpn, Option.map_some], ?_⟩
    simp [NodeKind.get?_set hget]
  refine ⟨hattached, ⟨_, by rw [node?_replaced, hon, Option.map_some], by simp [hne.symm]⟩, hor, ?_⟩
  -- the way up from the new child goes through the parent, and on from there as before
  intro hu
  cases hu with
  | self => exact hne rfl
  | step hp hu =>
    cases Option.some.inj (hp.symm.trans hattached.parent?_eq)
    have hu' : arena.Under old parent := hu.congr_above fun z hz =>
      parent?_replaced (habove hz).2 (habove hz).1
    exact (habove hu').1 rfl

/-- A replacement as a change of the row of nodes, those without a handle included. -/
theorem getElem?_replaced (i : Nat) :
    (arena.replaced old new parent location).nodes[i]? = arena.nodes[i]?.map fun node =>
      { kind := if parent.index = i then node.kind.set location new else node.kind
        span := node.span
        parent := if new.index = i then parent else if old.index = i then .absent else node.parent
        location :=
          if new.index = i then some location else if old.index = i then none
          else node.location } := by
  simp only [replaced, link, unlink, modifyKind, modifyNode, Array.getElem?_modify]
  cases arena.nodes[i]? with
  | none => simp
  | some node => split_ifs <;> rfl

/-- Two arenas are the same if their nodes, roots and texts are. -/
theorem eq_of_nodes {a b : Arena} (hnodes : ∀ i : Nat, a.nodes[i]? = b.nodes[i]?)
    (hroot : a.root = b.root) (hnames : a.names = b.names) : a = b := by
  cases a
  cases b
  simp only [mk.injEq]
  exact ⟨Array.ext_getElem? hnodes, hroot, hnames⟩

/-- Two replacements that are opposite to each other leave the new child without links and change
nothing else. -/
theorem replaced_replaced (hr : arena.Replaceable old new parent location) :
    (arena.replaced old new parent location).replaced new old parent location =
      arena.unlink new := by
  obtain ⟨onode, pnode, hon, -, hop, hol, hpn, hget⟩ := hr.attached
  have hne : new.index ≠ old.index := by
    intro he
    exact hr.ne (by cases new; cases old; simp_all)
  refine eq_of_nodes (fun i => ?_) (by rw [root_replaced, root_replaced, unlink, root_modifyNode])
    (by rw [names_replaced, names_replaced, unlink, names_modifyNode])
  rw [getElem?_replaced, getElem?_replaced, unlink, modifyNode, Array.getElem?_modify]
  cases hi : arena.nodes[i]? with
  | none => simp
  | some node =>
    have hkind : (if parent.index = i then
        (if parent.index = i then node.kind.set location new else node.kind).set location old
        else if parent.index = i then node.kind.set location new else node.kind) = node.kind := by
      split_ifs with hp
      · subst hp
        cases Option.some.inj ((node?_eq_some.1 hpn).2.symm.trans hi)
        exact NodeKind.set_set hget new
      · rfl
    simp only [Option.map_some, hkind]
    by_cases ho : old.index = i
    · subst ho
      cases Option.some.inj ((node?_eq_some.1 hon).2.symm.trans hi)
      rw [if_pos rfl, if_pos rfl, if_neg hne, ← hop, ← hol]
    · by_cases hn : new.index = i
      · simp only [ho, hn, if_true, if_false]
      · simp only [ho, hn, if_false]

/-- Unlinking a parentless node changes nothing where the links agree. -/
theorem Linked.unlink_eq (hl : arena.Linked) (hn : arena.node? id = some node)
    (hp : node.parent.isPresent = false) : arena.unlink id = arena := by
  have hparent : node.parent = .absent := not_not.1 (mt NodeId.isPresent_iff.2 (by simp [hp]))
  refine eq_of_nodes (fun i => ?_) (root_modifyNode ..) (names_modifyNode ..)
  rw [unlink, modifyNode, Array.getElem?_modify]
  split
  next hi =>
    subst hi
    rw [(node?_eq_some.1 hn).2, Option.map_some, ← hparent, ← hl.lone hn hp]
  next => rfl

/-- The opposite replacement can be made, and leaves the new child without links. -/
theorem Shows.run_replaceChild_back (h : arena.Shows view)
    (hr : arena.Replaceable old new parent location) :
    (Edit.replaceChild new old).run (arena.replaced old new parent location) =
      .ok () (arena.unlink new) := by
  have hshows := h.replaced (h.replaceable hr)
  have hcheck := hshows.checkReplacement_eq_ok_iff.2 (h.replaceable_back hr)
  simp only [Edit.run_replaceChild, hcheck, replaced_replaced hr]

/-- In every arena that operations lead to, a replacement puts one node in the place of another one
and changes nothing else. The opposite replacement can always be made and leaves the first arena
with the new child unlinked, which is the first arena itself as long as every node has a handle of
its own. -/
theorem reachable_replaceChild_undone (h : arena.Reachable)
    (hrun : (Edit.replaceChild old new).run arena = .ok () arena') :
    ∃ parent location, Exchanged arena arena' old new parent location ∧
      (Edit.replaceChild new old).run arena' = .ok () (arena.unlink new) ∧
      (arena.size ≤ NodeId.maxIndex → arena.unlink new = arena) := by
  obtain ⟨view, hshows⟩ := h.exists_shows
  rw [Edit.run_replaceChild] at hrun
  split at hrun
  next parent location hcheck =>
    cases hrun
    have hr := hshows.checkReplacement_eq_ok_iff.1 hcheck
    refine ⟨parent, location, hshows.exchanged hr, hshows.run_replaceChild_back hr, fun hs => ?_⟩
    obtain ⟨node, hn, hp⟩ := hr.parentless
    exact (h.linkedIfSmall hs).unlink_eq hn hp
  next => cases hrun

/-- The first of two statements of a detached block is replaced by another one, and back. -/
theorem reachable_replaceChild_undone_statement :
    ∃ arena arena', arena = [Operation.alloc .nullLiteral ⟨1, 5⟩,
        .alloc (.returnStatement ⟨0⟩) ⟨1, 6⟩, .alloc .emptyStatement ⟨6, 7⟩,
        .alloc (.block [⟨1⟩, ⟨2⟩]) ⟨0, 8⟩,
        .alloc .breakStatement ⟨1, 6⟩].foldl Operation.perform .empty ∧
      (Edit.replaceChild ⟨1⟩ ⟨4⟩).run arena = .ok () arena' ∧
      arena'.children? ⟨3⟩ =
        some [(.element .statements 0, ⟨4⟩), (.element .statements 1, ⟨2⟩)] ∧
      (Edit.replaceChild ⟨4⟩ ⟨1⟩).run arena' = .ok () arena := by
  obtain ⟨arena, ha⟩ : ∃ arena, arena = [Operation.alloc .nullLiteral ⟨1, 5⟩,
    .alloc (.returnStatement ⟨0⟩) ⟨1, 6⟩, .alloc .emptyStatement ⟨6, 7⟩,
    .alloc (.block [⟨1⟩, ⟨2⟩]) ⟨0, 8⟩,
    .alloc .breakStatement ⟨1, 6⟩].foldl Operation.perform .empty := ⟨_, rfl⟩
  have hreachable : arena.Reachable := ha ▸ Reachable.empty.performAll _
  have hsmall : arena.size ≤ NodeId.maxIndex := by
    rw [ha]
    decide
  have hchecked : arena.checkReplacement ⟨1⟩ ⟨4⟩ = .ok (⟨3⟩, .element .statements 0) := by
    rw [ha]
    decide +kernel
  have hrun : (Edit.replaceChild ⟨1⟩ ⟨4⟩).run arena =
      .ok () (arena.replaced ⟨1⟩ ⟨4⟩ ⟨3⟩ (.element .statements 0)) := by
    simp only [Edit.run_replaceChild, hchecked]
  obtain ⟨-, -, -, hback, hsame⟩ := reachable_replaceChild_undone hreachable hrun
  refine ⟨arena, _, ha, hrun, ?_, by rw [hback, hsame hsmall]⟩
  rw [ha]
  decide +kernel

/-! ## What is not given back -/

private theorem location?_unlink (hn : arena.node? id = some node) :
    (arena.unlink id).location? id = none := by
  rw [location?, unlink, node?_modifyNode, if_pos rfl, hn]
  rfl

/-- A child of the node without a handle loses its location for good when it takes the place of
another node and gives it back. -/
theorem Linked.run_replaceChild_push (hl : arena.Linked) (span : Span) (h : arena.Adoptable kind)
    (hs : arena.size = NodeId.maxIndex) {place : Location} (hc : (place, new) ∈ kind.children)
    (hr : arena.Replaceable old new parent location) :
    ∃ arena', (Edit.replaceChild old new).run (arena.push kind span) = .ok () arena' ∧
      (Edit.replaceChild new old).run arena' = .ok () ((arena.push kind span).unlink new) ∧
      (arena.push kind span).location? new = some place ∧
      ((arena.push kind span).unlink new).location? new = none := by
  have hshows : (arena.push kind span).Shows arena := hl.shows_push h hs
  have hr' := hshows.replaceable_of hr
  have hcheck := hshows.checkReplacement_eq_ok_iff.2 hr'
  obtain ⟨node, hn, -⟩ := hr'.parentless
  refine ⟨_, ?_, hshows.run_replaceChild_back hr', h.location?_push hc, location?_unlink hn⟩
  simp only [Edit.run_replaceChild, hcheck]

/-- Beside a full tree and its copy, a literal can take the place of what lies below the top. -/
theorem Crowned.exists_literal {top : Nat} (h : arena.Crowned top)
    (hheld : arena.AttachedAt old ⟨top⟩ location) (hs : 2 * top + 3 ≤ NodeId.maxIndex) :
    ∃ full, full = [Operation.copySubtree ⟨top⟩, .alloc .nullLiteral .nowhere].foldl
        Operation.perform arena ∧
      full.Linked ∧ full.root = .absent ∧ full.size = 2 * top + 3 ∧
      full.Replaceable old ⟨2 * top + 2⟩ ⟨top⟩ location := by
  obtain ⟨middle, hcopy, hext, hsize, hhalves⟩ := h.exists_copy (by omega)
  obtain ⟨⟨node, hn, -, hparent⟩, -⟩ := hhalves ⟨top⟩ (by simp)
  have hspace : middle.size < NodeId.maxIndex := by omega
  have hleaf : middle.Adoptable .nullLiteral := ⟨nofun, by decide⟩
  have halloc : (Edit.alloc .nullLiteral .nowhere).run middle =
      .ok ⟨middle.size⟩ (middle.push .nullLiteral .nowhere) :=
    Edit.run_alloc_eq_ok.2 ⟨hspace.le, hleaf, rfl, rfl⟩
  have hgrown := hext.linked.extends_push_leaf hspace .nullLiteral rfl .nowhere
  have hroot := hgrown.root.trans (hext.root.trans h.root)
  have hliteral : (middle.push .nullLiteral .nowhere).node? ⟨2 * top + 2⟩ =
      some ⟨.nullLiteral, .nowhere, .absent, none⟩ := hsize ▸ node?_push_self hspace hleaf
  have hheld' := hgrown.attachedAt (hext.attachedAt hheld)
  refine ⟨_, ?_, hgrown.linked, hroot, by rw [size_push, hsize], hheld', ⟨_, hliteral, rfl⟩, ?_, ?_⟩
  · simp only [List.foldl_cons, List.foldl_nil, Operation.perform, Edit.after_of_run_ok hcopy,
      Edit.after_of_run_ok halloc]
  · rw [hroot]
    exact NodeId.isPresent_iff.1 (isPresent_of_node? hliteral)
  · -- the way up ends at the top of the tree
    intro hu
    cases hu with
    | self =>
      obtain ⟨onode, -, hon, -⟩ := hheld
      have hlt : 2 * top + 2 < arena.size := index_lt_of_node? hon
      have := h.size
      omega
    | step hp hu =>
      cases Option.some.inj (hp.symm.trans hheld'.parent?_eq)
      cases hu with
      | step hp' _ =>
        rw [(parent?_eq_none_of_node? (hgrown.kept hn)).2 hparent] at hp'
        cases hp'

/-- Two full trees of height 30 and a literal in parentheses use up all handles, that of no node
included. The literal takes the place of an operand and gives it back, and its location is gone. -/
theorem replaceChild_undone_fullTree :
    ∃ arena arena' arena'' : Arena, arena = (Operation.fullTree 30 ++
        [Operation.copySubtree ⟨2147483646⟩, .alloc .nullLiteral .nowhere,
          .alloc (.parenthesizedExpression ⟨4294967294⟩) .nowhere]).foldl
        Operation.perform .empty ∧
      arena.Reachable ∧
      (Edit.replaceChild ⟨1073741822⟩ ⟨4294967294⟩).run arena = .ok () arena' ∧
      (Edit.replaceChild ⟨4294967294⟩ ⟨1073741822⟩).run arena' = .ok () arena'' ∧
      arena.location? ⟨4294967294⟩ = some (.single .expression) ∧
      arena''.location? ⟨4294967294⟩ = none ∧ arena'' ≠ arena := by
  obtain ⟨tree, htree⟩ : ∃ tree, tree = (Operation.fullTree 30).foldl Operation.perform .empty :=
    ⟨_, rfl⟩
  have hcrowned : tree.Crowned 2147483646 := htree ▸ crowned_fullTree 30 (by decide)
  have hoperand : tree.AttachedAt ⟨1073741822⟩ ⟨2147483646⟩ (.single .leftOperand) := by
    rw [htree, Operation.fullTree, List.foldl_append]
    exact (crowned_fullTree 29 (by decide)).attachedAt_double (by decide)
  obtain ⟨full, hfull, hl, hroot, hsize, hr⟩ := hcrowned.exists_literal hoperand (by decide)
  obtain ⟨node, hn, hp⟩ := hr.parentless
  have had : full.Adoptable (.parenthesizedExpression ⟨4294967294⟩) :=
    ⟨List.forall_mem_singleton.2 ⟨node, hn, hr.ne_root, hp⟩, by decide⟩
  have halloc : (Edit.alloc (.parenthesizedExpression ⟨4294967294⟩) .nowhere).run full =
      .ok ⟨full.size⟩ (full.push (.parenthesizedExpression ⟨4294967294⟩) .nowhere) :=
    Edit.run_alloc_eq_ok.2 ⟨hsize.le, had, rfl, rfl⟩
  have hperformed : (Operation.fullTree 30 ++
      [Operation.copySubtree ⟨2147483646⟩, .alloc .nullLiteral .nowhere,
        .alloc (.parenthesizedExpression ⟨4294967294⟩) .nowhere]).foldl Operation.perform .empty =
      full.push (.parenthesizedExpression ⟨4294967294⟩) .nowhere := by
    rw [List.foldl_append, ← htree]
    rw [List.foldl_cons, List.foldl_cons, List.foldl_nil] at hfull
    rw [List.foldl_cons, List.foldl_cons, List.foldl_cons, List.foldl_nil, ← hfull,
      Operation.perform, Edit.after_of_run_ok halloc]
  have hchild : (.single .expression, ⟨4294967294⟩) ∈
      (NodeKind.parenthesizedExpression ⟨4294967294⟩ : ArenaKind).children := by decide
  obtain ⟨arena', hrun, hback, hbefore, hafter⟩ :=
    hl.run_replaceChild_push .nowhere had hsize hchild hr
  refine ⟨_, arena', _, hperformed.symm, hperformed ▸ Reachable.empty.performAll _, hrun, hback,
    hbefore, hafter, fun he => ?_⟩
  rw [he, hbefore] at hafter
  cases hafter

end JavaFold.Arena
