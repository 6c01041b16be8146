import JavaFold.Fold.ParenthesizedLiteral
import JavaFold.Proofs.Arena.Tree

/-!
# Arenas that can come about

An arena comes about from the empty one by operations in any order and with any arguments, refused
ones included. In every such arena the two records of each link agree, as long as every node has a
handle of its own. One operation after the other keeps `LinkedIfSmall`, which says nothing about an
arena with more nodes than handles.
-/

namespace JavaFold

/-- An arena whose links agree, unless there are more nodes than handles. -/
def Arena.LinkedIfSmall (arena : Arena) : Prop :=
  arena.size ≤ NodeId.maxIndex → arena.Linked

namespace Edit

open Arena

/-- A new name keeps the links as they are. -/
theorem keeps_intern (text : String) : Keeps LinkedIfSmall (intern text) := by
  intro arena h hs
  rw [after, run_intern] at hs ⊢
  exact (h hs).withNames _

/-- A new node links its children to itself, or is refused and changes nothing. -/
theorem keeps_alloc (kind : ArenaKind) (span : Span) : Keeps LinkedIfSmall (alloc kind span) := by
  intro arena h hs
  rw [after, run_alloc] at hs ⊢
  by_cases hm : NodeId.maxIndex < arena.size
  · rw [if_pos hm] at hs ⊢
    exact h hs
  · rw [if_neg hm] at hs ⊢
    cases hc : arena.checkNew kind with
    | error v =>
      rw [hc] at hs
      exact h hs
    | ok u =>
      simp only [hc, size_push] at hs
      have hl := h (by omega)
      exact hl.push (by omega) ((checkNew_eq_ok (by omega)).1 hc)

/-- The new root is a detached node, which is all that the links ask of it. -/
theorem keeps_setRoot (id : NodeId) : Keeps LinkedIfSmall (setRoot id) := by
  intro arena h hs
  rw [after, run_setRoot] at hs ⊢
  cases hc : arena.checkParentless id with
  | error v =>
    rw [hc] at hs
    exact h hs
  | ok u =>
    rw [hc] at hs
    obtain ⟨node, hn, hp⟩ := checkParentless_eq_ok.1 hc
    exact (h hs).withRoot hn hp

/-- A replacement changes the links of three nodes, and they agree afterwards. -/
theorem keeps_replaceChild (old new : NodeId) : Keeps LinkedIfSmall (replaceChild old new) := by
  intro arena h hs
  rw [after, run_replaceChild] at hs ⊢
  cases hc : arena.checkReplacement old new with
  | error v =>
    rw [hc] at hs
    exact h hs
  | ok slot =>
    simp only [hc, size_replaced] at hs
    have hl := h hs
    exact hl.replaced (hl.checkReplacement_eq_ok_iff.1 hc)

/-- A removal changes the links of two nodes and of the elements that move up, and they agree
afterwards. -/
theorem keeps_removeChild (id : NodeId) : Keeps LinkedIfSmall (removeChild id) := by
  intro arena h hs
  rw [after, run_removeChild] at hs ⊢
  cases hc : arena.checkRemoval id with
  | error v =>
    rw [hc] at hs
    exact h hs
  | ok slot =>
    simp only [hc, size_withoutChild] at hs
    exact (h hs).withoutChild (checkRemoval_eq_ok.1 hc).1

/-- A copy is made by allocation alone, so it keeps what every allocation keeps. -/
theorem keeps_copyUpTo {P : Arena → Prop} (halloc : ∀ kind span, Keeps P (alloc kind span))
    (depth : Nat) (id : NodeId) : Keeps P (copyUpTo depth id) := by
  induction depth generalizing id with
  | zero => exact .pure _
  | succ depth ih =>
    rw [copyUpTo]
    refine .bind .read fun arena => ?_
    cases arena.node? id with
    | none => exact .pure _
    | some node =>
      refine .bind ?_ fun kind => halloc kind node.span
      exact .traverse (fun _ => .pure _) (fun _ c _ => ih c) fun _ cs _ => .mapM fun c _ => ih c

/-- A copy of a whole subtree keeps what every allocation keeps. -/
theorem keeps_copySubtree {P : Arena → Prop} (halloc : ∀ kind span, Keeps P (alloc kind span))
    (id : NodeId) : Keeps P (copySubtree id) :=
  .bind .read fun _ => .bind (.ofExcept _) fun _ => .bind .read fun _ => keeps_copyUpTo halloc _ _

section Visits

variable {P : Arena → Prop} {visit : NodeId → Edit Nat}

/-- Visiting several nodes keeps what every visit keeps. -/
theorem keeps_visitAll (hvisit : ∀ id, Keeps P (visit id)) (ids : List NodeId) :
    Keeps P (visitAll visit ids) :=
  .foldlM (fun _ id _ => .bind (hvisit id) fun _ => .pure _) 0

/-- A walk keeps what every visit keeps. -/
theorem keeps_walk (hvisit : ∀ id, Keeps P (visit id)) (id : NodeId) : Keeps P (walk visit id) := by
  have hupTo (depth : Nat) (id : NodeId) : Keeps P (walkUpTo visit depth id) := by
    induction depth generalizing id with
    | zero => exact .pure _
    | succ depth ih =>
      exact .bind .read fun _ => .bind (keeps_visitAll ih _) fun _ =>
        .bind (hvisit id) fun _ => .pure _
  exact .bind .read fun _ => hupTo _ id

end Visits

end Edit

namespace ParenthesizedLiteral

open Edit

variable {P : Arena → Prop}

/-- Putting a node in the place of another replaces a child or chooses a root. -/
theorem keeps_splice (hreplace : ∀ old new, Keeps P (replaceChild old new))
    (hroot : ∀ id, Keeps P (setRoot id)) (old new : NodeId) : Keeps P (splice old new) := by
  refine .bind .read fun arena => .bind (.ofExcept _) fun location => ?_
  cases location with
  | some l => exact hreplace old new
  | none => exact hroot new

/-- A walk that takes parentheses away keeps what allocations, replacements and choices of a root
keep, also where it fails halfway. -/
theorem keeps_collapse (halloc : ∀ kind span, Keeps P (alloc kind span))
    (hreplace : ∀ old new, Keeps P (replaceChild old new)) (hroot : ∀ id, Keeps P (setRoot id))
    (id : NodeId) : Keeps P (collapse id) := by
  refine .bind .read fun arena => ?_
  split
  · refine .bind (.ofExcept _) fun inner => ?_
    split
    · exact .bind (keeps_copySubtree halloc _) fun literal =>
        .bind (keeps_splice hreplace hroot id literal) fun _ => .pure _
    · exact .pure _
  · exact .pure _

/-- The rule keeps what allocation, replacement and the choice of a root keep. -/
theorem keeps_rewrite (halloc : ∀ kind span, Keeps P (alloc kind span))
    (hreplace : ∀ old new, Keeps P (replaceChild old new)) (hroot : ∀ id, Keeps P (setRoot id))
    (root : NodeId) : Keeps P (rewrite root) :=
  .bind .read fun _ => .bind (.ofExcept _) fun _ =>
    keeps_walk (keeps_collapse halloc hreplace hroot) root

end ParenthesizedLiteral

/-! ## Operations -/

/-- An operation on an arena with its arguments. -/
inductive Operation where
  /-- Allocate a node. -/
  | alloc (kind : ArenaKind) (span : Span)
  /-- Intern a text. -/
  | intern (text : String)
  /-- Designate a root. -/
  | setRoot (id : NodeId)
  /-- Put a node in the place of the root. -/
  | replaceRoot (new : NodeId)
  /-- Put a node into the slot of another one. -/
  | replaceChild (old new : NodeId)
  /-- Take a node out of its slot. -/
  | removeChild (id : NodeId)
  /-- Copy the nodes under a node. -/
  | copySubtree (id : NodeId)
  /-- Remove the parentheses around literals under a node. -/
  | rewrite (root : NodeId)
  deriving DecidableEq, Repr

namespace Operation

/-- The arena that an operation leaves, whether or not it was refused. -/
def perform (arena : Arena) : Operation → Arena
  | alloc kind span => (Edit.alloc kind span).after arena
  | intern text => (Edit.intern text).after arena
  | setRoot id => (Edit.setRoot id).after arena
  | replaceRoot new => (Edit.replaceRoot new).after arena
  | replaceChild old new => (Edit.replaceChild old new).after arena
  | removeChild id => (Edit.removeChild id).after arena
  | copySubtree id => (Edit.copySubtree id).after arena
  | rewrite root => (ParenthesizedLiteral.rewrite root).after arena

/-- Every operation keeps what the changes that it is made of keep. -/
theorem keeps_perform {P : Arena → Prop} {arena : Arena}
    (halloc : ∀ kind span, Edit.Keeps P (Edit.alloc kind span))
    (hintern : ∀ text, Edit.Keeps P (Edit.intern text))
    (hroot : ∀ id, Edit.Keeps P (Edit.setRoot id))
    (hreplace : ∀ old new, Edit.Keeps P (Edit.replaceChild old new))
    (hremove : ∀ id, Edit.Keeps P (Edit.removeChild id)) (h : P arena) (operation : Operation) :
    P (operation.perform arena) := by
  cases operation with
  | alloc kind span => exact halloc kind span arena h
  | intern text => exact hintern text arena h
  | setRoot id => exact hroot id arena h
  | replaceRoot new => exact hroot new arena h
  | replaceChild old new => exact hreplace old new arena h
  | removeChild id => exact hremove id arena h
  | copySubtree id => exact Edit.keeps_copySubtree halloc id arena h
  | rewrite root => exact ParenthesizedLiteral.keeps_rewrite halloc hreplace hroot root arena h

private theorem linkedIfSmall_perform {arena : Arena} (h : arena.LinkedIfSmall)
    (operation : Operation) :
    (operation.perform arena).LinkedIfSmall :=
  keeps_perform Edit.keeps_alloc Edit.keeps_intern Edit.keeps_setRoot Edit.keeps_replaceChild
    Edit.keeps_removeChild h operation

end Operation

namespace Arena

/-- The arenas that operations lead to from the empty one. -/
inductive Reachable : Arena → Prop where
  /-- The empty arena. -/
  | empty : Reachable .empty
  /-- One more operation, refused or not. -/
  | perform {arena : Arena} (h : Reachable arena) (operation : Operation) :
    Reachable (operation.perform arena)

/-- Operations one after the other lead from a reachable arena to a reachable one, failures
included. -/
theorem Reachable.performAll {arena : Arena} (h : arena.Reachable) (operations : List Operation) :
    (operations.foldl Operation.perform arena).Reachable := by
  induction operations generalizing arena with
  | nil => exact h
  | cons operation rest ih => exact ih (h.perform operation)

/-- The links of a reachable arena agree as long as every node has a handle of its own, by induction
over the operations. -/
theorem Reachable.linkedIfSmall {arena : Arena} (h : arena.Reachable) : arena.LinkedIfSmall := by
  induction h with
  | empty => exact fun _ => linked_empty
  | perform _ operation ih => exact operation.linkedIfSmall_perform ih

/-- Where a node sits in its parent, as recorded. -/
def location? (arena : Arena) (id : NodeId) : Option Location :=
  (arena.node? id).bind Node.location

/-- The two records of the links, read through the operations that look things up, agree. -/
structure Consistent (arena : Arena) : Prop where
  /-- A child is there and knows its parent and its location. -/
  down : ∀ {p children location c}, arena.children? p = some children → (location, c) ∈ children →
    arena.contains c = true ∧ arena.parent? c = some p ∧ arena.location? c = some location
  /-- A parent holds its child at the child's location. -/
  up : ∀ {c p}, arena.parent? c = some p →
    ∃ location, arena.location? c = some location ∧ arena.resolve p location = .ok c
  /-- A parentless node has no location. -/
  lone : ∀ {c}, arena.parent? c = none → arena.location? c = none
  /-- No node sits in two slots. -/
  once : ∀ {p q l k c}, c.isPresent = true → arena.resolve p l = .ok c → arena.resolve q k = .ok c →
    p = q ∧ l = k
  /-- Following parents ends at a parentless node after fewer steps than there are nodes. -/
  ends : ∀ {c}, arena.contains c = true → ∃ steps < arena.size, arena.Depth c steps
  /-- The search for an ancestor sees every node above. -/
  above : ∀ {a c}, arena.contains c = true → (arena.isAncestorOrSelf a c = true ↔ arena.Under a c)
  /-- A walk over the tree under a node sees everything below. -/
  below : ∀ {c node}, arena.node? c = some node →
    arena.tree c = .node ⟨c, node.span⟩ (node.kind.map arena.names.lookup arena.tree)
  /-- The root is absent, or a parentless node that is there. -/
  root : arena.root = .absent ∨ arena.contains arena.root = true ∧ arena.parent? arena.root = none

/-- Links that agree agree in every way that a reader of the arena can see. -/
private theorem Linked.consistent {arena : Arena} (hl : arena.Linked) : arena.Consistent where
  down := by
    intro p children location c hp hc
    obtain ⟨node, hn, rfl⟩ := Option.map_eq_some_iff.1 hp
    obtain ⟨child, hchild, rfl, hloc⟩ := hl.down hn hc
    refine ⟨contains_iff.2 ⟨child, hchild⟩, ?_, ?_⟩
    · exact parent?_eq_some.2 ⟨child, hchild, rfl, isPresent_of_node? hn⟩
    · rw [location?, hchild, Option.bind_some, hloc]
  up := by
    intro c p hp
    obtain ⟨child, hchild, rfl, hpres⟩ := parent?_eq_some.1 hp
    obtain ⟨location, node, hloc, hn, hg⟩ := hl.up hchild hpres
    refine ⟨location, ?_, resolve_eq_ok.2 ⟨node, hn, hg⟩⟩
    rw [location?, hchild, Option.bind_some, hloc]
  lone := by
    intro c hp
    cases hc : arena.node? c with
    | none => rw [location?, hc, Option.bind_none]
    | some child =>
      rw [location?, hc, Option.bind_some]
      exact hl.lone hc ((parent?_eq_none_of_node? hc).1 hp)
  once := by
    intro p q l k c hc hp hq
    obtain ⟨m, hm, hgl⟩ := resolve_eq_ok.1 hp
    obtain ⟨n, hn, hgk⟩ := resolve_eq_ok.1 hq
    exact hl.location_unique hm hn hc hgl hgk
  ends := by
    intro c hc
    obtain ⟨child, hchild⟩ := contains_iff.1 hc
    obtain ⟨steps, hd⟩ := hl.grounded hchild
    exact ⟨steps, hl.depth_lt_size hd hchild, hd⟩
  above := by
    intro a c hc
    obtain ⟨child, hchild⟩ := contains_iff.1 hc
    exact hl.isAncestorOrSelf_iff hchild
  below := hl.tree_eq
  root := by
    rcases hl.rooted with hr | ⟨node, hn, hp⟩
    · exact .inl hr
    · exact .inr ⟨contains_iff.2 ⟨node, hn⟩, (parent?_eq_none_of_node? hn).2 hp⟩

/-- In every arena that operations lead to, the two records of each link agree, no node sits in two
slots, following parents ends, and the root has no parent. -/
theorem reachable_consistent {arena : Arena} (h : arena.Reachable)
    (hs : arena.size ≤ NodeId.maxIndex) : arena.Consistent :=
  (h.linkedIfSmall hs).consistent

/-- An arena in which one rewrite was made and one operation was refused. -/
theorem reachable_consistent_rewritten :
    let arena := [Operation.alloc .nullLiteral ⟨1, 5⟩,
      .alloc (.parenthesizedExpression ⟨0⟩) ⟨0, 6⟩, .setRoot ⟨1⟩, .rewrite ⟨1⟩,
      .removeChild ⟨0⟩].foldl Operation.perform .empty
    arena.root = ⟨2⟩ ∧ arena.Consistent :=
  ⟨by decide, reachable_consistent (Reachable.empty.performAll _) (by decide)⟩

end Arena

end JavaFold
