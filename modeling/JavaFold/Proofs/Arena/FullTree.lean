import JavaFold.Proofs.Arena.Growth
import JavaFold.Proofs.Arena.Transplant

/-!
# Full trees

It does not take many operations to use up all handles, since a copy doubles the nodes. An arena is
filled by doubling: its one tree is copied, and the tree and its copy become the operands of a new
node (`Operation.fullTree`). The nodes are never computed. All that is known of them is carried from
one doubling to the next (`Arena.Crowned`): how many there are, and that they all lie under the last
one.
-/

namespace JavaFold

namespace Operation

/-- Copy the last node, and make it and its copy the operands of a new one. The handle of the copy
is right if all nodes lie under the last one. -/
def double (top : Nat) : List Operation :=
  [.copySubtree ⟨top⟩, .alloc (.infixExpression .plus ⟨top⟩ ⟨2 * top + 1⟩) .nowhere]

/-- The number of nodes before the top of a full binary tree of the given height. -/
def fullTreeTop : Nat → Nat
  | 0 => 0
  | height + 1 => 2 * fullTreeTop height + 2

/-- Allocate a full binary tree of the given height, the top last. -/
def fullTree : Nat → List Operation
  | 0 => [.alloc .nullLiteral .nowhere]
  | height + 1 => fullTree height ++ double (fullTreeTop height)

end Operation

namespace Arena

variable {arena : Arena} {id : NodeId} {node : Node} {top : Nat}

/-- All nodes lie under the last one, which has no parent and is not the root. -/
structure Crowned (arena : Arena) (top : Nat) : Prop where
  /-- The links agree. -/
  linked : arena.Linked
  /-- There is no root. -/
  root : arena.root = .absent
  /-- The node is the last one. -/
  size : arena.size = top + 1
  /-- The node is there and has no parent. -/
  parentless : ∃ node, arena.node? ⟨top⟩ = some node ∧ node.parent.isPresent = false
  /-- There are as many nodes under the node as there are at all. -/
  whole : (arena.spans ⟨top⟩).preorder.length = arena.size

/-- A copy is made if there is room for it, and its top is the last node. -/
theorem Linked.exists_run_copySubtree (hl : arena.Linked) (hn : arena.node? id = some node)
    (hs : arena.size + (arena.spans id).preorder.length ≤ NodeId.maxIndex) :
    ∃ arena' last, (Edit.copySubtree id).run arena = .ok ⟨last⟩ arena' ∧
      arena'.size = last + 1 := by
  obtain ⟨n, hd⟩ := hl.grounded hn
  obtain ⟨move, hm, ha⟩ := hl.exists_numbers hn
  have hlength := length_postorder_eq_spans arena id
  obtain ⟨arena', hrun, h⟩ :=
    Edit.transplants_copyUpTo hl ha hd hn (Nat.le_add_right _ _) arena (.refl hl) hm (by omega)
  refine ⟨arena', (move id).index, ?_, ?_⟩
  · rw [Edit.copySubtree, Edit.run_read_bind, Edit.run_ofExcept_bind, require_eq_ok.2 hn]
    exact hrun
  · rw [h.size, List.flatMap_singleton, hl.postorder_eq_occupants hn, hm.move_top hl hn,
      List.length_append, List.length_singleton, Nat.add_assoc]

/-- Copying the top gives a second tree of the same size, and there is nothing beside the two. -/
theorem Crowned.exists_copy (h : arena.Crowned top) (hs : 2 * top + 2 ≤ NodeId.maxIndex) :
    ∃ middle, (Edit.copySubtree ⟨top⟩).run arena = .ok ⟨2 * top + 1⟩ middle ∧
      arena.Extends middle ∧ middle.size = 2 * top + 2 ∧
      ∀ x ∈ [(⟨top⟩ : NodeId), ⟨2 * top + 1⟩],
        middle.Attachable x ∧ (middle.spans x).preorder.length = top + 1 := by
  have hsize := h.size
  have hwhole := h.whole
  obtain ⟨node, hn, hp⟩ := h.parentless
  obtain ⟨middle, last, hrun, hlast⟩ := h.linked.exists_run_copySubtree hn (by omega)
  have hmiddle : middle.size = 2 * top + 2 := by
    rw [Edit.size_copySubtree h.linked hrun]
    omega
  obtain rfl : last = 2 * top + 1 := by omega
  -- what the copy is like is known of every run that leaves a handle to each node
  have hends := Edit.ends_copySubtree (E := fun _ => False) h.linked hn
  rw [Edit.Ends, hrun] at hends
  obtain ⟨hext, hcopied⟩ := hends (by omega)
  have hroot : middle.root = .absent := hext.root.trans h.root
  have hattachable {x : NodeId} {node : Node} (hx : middle.node? x = some node)
      (hp : node.parent.isPresent = false) : middle.Attachable x :=
    ⟨node, hx, hroot ▸ NodeId.isPresent_iff.1 (isPresent_of_node? hx), hp⟩
  obtain ⟨node', hn', hp'⟩ := hcopied.lone
  refine ⟨middle, hrun, hext, hmiddle, List.forall_mem_cons.2 ⟨?_,
    List.forall_mem_singleton.2 ?_⟩⟩
  · exact ⟨hattachable (hext.kept hn) hp, by rw [hext.spans_eq h.linked hn, hwhole, hsize]⟩
  · exact ⟨hattachable hn' hp', by rw [hcopied.spans, hwhole, hsize]⟩

/-- Two different nodes that can become children can become the operands of one node. -/
theorem adoptable_operands {operator : InfixOperator} {left right : NodeId}
    (hleft : arena.Attachable left) (hright : arena.Attachable right) (hne : left ≠ right) :
    arena.Adoptable (.infixExpression operator left right) := by
  have hchildren : (NodeKind.infixExpression operator left right : ArenaKind).children =
      [(.single .leftOperand, left), (.single .rightOperand, right)] := by
    obtain ⟨_, hn, -⟩ := hleft
    obtain ⟨_, hn', -⟩ := hright
    simp [NodeKind.children, NodeKind.slots, Slot.children, Occupant.isPresent,
      isPresent_of_node? hn, isPresent_of_node? hn']
  constructor
  · rw [hchildren]
    simp [hleft, hright]
  · rw [hchildren]
    simp [hne]

/-- Doubling adds a copy and a node over the top and its copy. -/
theorem Crowned.exists_double (h : arena.Crowned top) (hs : 2 * top + 3 ≤ NodeId.maxIndex) :
    ∃ middle : Arena, arena.Extends middle ∧ middle.size = 2 * top + 2 ∧
      middle.Adoptable (.infixExpression .plus ⟨top⟩ ⟨2 * top + 1⟩) ∧
      (∀ x ∈ [(⟨top⟩ : NodeId), ⟨2 * top + 1⟩], (middle.spans x).preorder.length = top + 1) ∧
      (Operation.double top).foldl Operation.perform arena =
        middle.push (.infixExpression .plus ⟨top⟩ ⟨2 * top + 1⟩) .nowhere := by
  obtain ⟨middle, hcopy, hext, hsize, hhalves⟩ := h.exists_copy (by omega)
  obtain ⟨hleft, -⟩ := hhalves ⟨top⟩ (by simp)
  obtain ⟨hright, -⟩ := hhalves ⟨2 * top + 1⟩ (by simp)
  have hspace : middle.size ≤ NodeId.maxIndex := by omega
  have had : middle.Adoptable (.infixExpression .plus ⟨top⟩ ⟨2 * top + 1⟩) := by
    refine adoptable_operands hleft hright ?_
    rw [ne_eq, NodeId.mk.injEq]
    omega
  have halloc : (Edit.alloc (.infixExpression .plus ⟨top⟩ ⟨2 * top + 1⟩) .nowhere).run middle =
      .ok ⟨middle.size⟩ (middle.push (.infixExpression .plus ⟨top⟩ ⟨2 * top + 1⟩) .nowhere) :=
    Edit.run_alloc_eq_ok.2 ⟨hspace, had, rfl, rfl⟩
  refine ⟨middle, hext, hsize, had, fun x hx => (hhalves x hx).2, ?_⟩
  simp only [Operation.double, List.foldl_cons, List.foldl_nil, Operation.perform,
    Edit.after_of_run_ok hcopy, Edit.after_of_run_ok halloc]

/-- Doubling makes one tree of all nodes again. -/
theorem Crowned.double (h : arena.Crowned top) (hs : 2 * top + 3 ≤ NodeId.maxIndex) :
    ((Operation.double top).foldl Operation.perform arena).Crowned (2 * top + 2) := by
  obtain ⟨middle, hext, hsize, had, hcounts, hdouble⟩ := h.exists_double hs
  have hspace : middle.size < NodeId.maxIndex := by omega
  have hleft := hcounts ⟨top⟩ (by simp)
  have hright := hcounts ⟨2 * top + 1⟩ (by simp)
  have hoccupants : (NodeKind.infixExpression .plus ⟨top⟩ ⟨2 * top + 1⟩ : ArenaKind).occupants =
      [⟨top⟩, ⟨2 * top + 1⟩] := rfl
  rw [hdouble]
  refine {
    linked := hext.linked.push hspace had
    root := (root_push ..).trans (hext.root.trans h.root)
    size := by rw [size_push, hsize]
    parentless := ⟨_, hsize ▸ node?_push_self hspace had, rfl⟩
    whole := ?_ }
  rw [size_push, ← hsize, hext.linked.spans_push_self hspace had, Tree.preorder_node,
    NodeKind.occupants_map, hoccupants]
  simp only [List.map_cons, List.map_nil, List.flatMap_cons, List.flatMap_nil, List.append_nil,
    List.length_cons, List.length_append, hleft, hright]
  omega

/-- After doubling, the former top is the left operand of the new one. -/
theorem Crowned.attachedAt_double (h : arena.Crowned top) (hs : 2 * top + 3 ≤ NodeId.maxIndex) :
    ((Operation.double top).foldl Operation.perform arena).AttachedAt ⟨top⟩ ⟨2 * top + 2⟩
      (.single .leftOperand) := by
  obtain ⟨middle, hext, hsize, had, -, hdouble⟩ := h.exists_double hs
  have hspace : middle.size < NodeId.maxIndex := by omega
  obtain ⟨node, hn, hp⟩ := h.parentless
  have hpresent : Occupant.isPresent (⟨top⟩ : NodeId) = true := isPresent_of_node? hn
  have hchild : (.single .leftOperand, (⟨top⟩ : NodeId)) ∈
      (NodeKind.infixExpression .plus ⟨top⟩ ⟨2 * top + 1⟩ : ArenaKind).children :=
    NodeKind.mem_children_of_get? rfl hpresent
  have hroot : middle.root = .absent := hext.root.trans h.root
  rw [hdouble, ← hsize]
  refine ⟨_, _, by rw [node?_push_child hspace had hchild, hext.kept hn, Option.map_some], ?_, rfl,
    rfl, node?_push_self hspace had, rfl⟩
  rw [root_push, hroot]
  exact NodeId.isPresent_iff.1 hpresent

private theorem crowned_nullLiteral :
    ([Operation.alloc .nullLiteral .nowhere].foldl Operation.perform .empty).Crowned 0 where
  linked := (Reachable.empty.performAll _).linkedIfSmall (by decide)
  root := by decide
  size := by decide
  parentless := ⟨⟨.nullLiteral, .nowhere, .absent, none⟩, by decide, by decide⟩
  whole := by decide

/-- A full tree is allocated as long as there are handles for it, and nothing else is. -/
theorem crowned_fullTree (height : Nat)
    (hs : Operation.fullTreeTop height + 1 ≤ NodeId.maxIndex) :
    ((Operation.fullTree height).foldl Operation.perform .empty).Crowned
      (Operation.fullTreeTop height) := by
  induction height with
  | zero => exact crowned_nullLiteral
  | succ height ih =>
    rw [Operation.fullTreeTop] at hs
    rw [Operation.fullTree, List.foldl_append]
    exact (ih (by omega)).double hs

end Arena

end JavaFold
