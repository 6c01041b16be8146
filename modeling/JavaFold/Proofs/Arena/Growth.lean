import JavaFold.Proofs.Arena.Copy
import JavaFold.Proofs.Arena.Overfull

/-!
# What copying leaves and what it adds

Copying goes by allocation alone. Allocation changes where nodes are attached and nothing else about
the nodes that were there (`Retains`), with or without a handle for the new node. So the number of
nodes that a copy adds is known beforehand: it is that of the tree that is copied.
-/

namespace JavaFold

namespace Arena

variable {base arena : Arena} {id x : NodeId} {node : Node}

/-- The second arena has the root and the texts of the first one, and its nodes up to where they are
attached. -/
structure Retains (base arena : Arena) : Prop where
  /-- The root is the same. -/
  root : arena.root = base.root
  /-- The texts are the same. -/
  names : arena.names = base.names
  /-- The nodes keep their kinds and their source ranges. -/
  node? : ∀ {x node}, base.node? x = some node → ∃ node', arena.node? x = some node' ∧
    node'.kind = node.kind ∧ node'.span = node.span

/-- An arena retains itself. -/
theorem Retains.refl (arena : Arena) : arena.Retains arena :=
  ⟨rfl, rfl, fun hn => ⟨_, hn, rfl, rfl⟩⟩

/-- Linking children changes no kind and no source range. -/
theorem node?_foldl_link_of_node? (parent : NodeId) (children : List (Location × NodeId))
    (hn : arena.node? x = some node) :
    ∃ node', (children.foldl (fun arena (location, child) => arena.link parent location child)
      arena).node? x = some node' ∧ node'.kind = node.kind ∧ node'.span = node.span := by
  induction children generalizing arena node with
  | nil => exact ⟨node, hn, rfl, rfl⟩
  | cons entry rest ih =>
    obtain ⟨node', hn', hkind, hspan⟩ : ∃ node', (arena.link parent entry.1 entry.2).node? x =
        some node' ∧ node'.kind = node.kind ∧ node'.span = node.span := by
      rw [link, node?_modifyNode, hn]
      split
      · exact ⟨_, rfl, rfl, rfl⟩
      · exact ⟨node, rfl, rfl, rfl⟩
    obtain ⟨last, hlast, hkind', hspan'⟩ := ih hn'
    exact ⟨last, hlast, hkind'.trans hkind, hspan'.trans hspan⟩

/-- Allocation retains what was there, whether or not there is a handle for the new node. -/
theorem Retains.push (h : base.Retains arena) (kind : ArenaKind) (span : Span) :
    base.Retains (arena.push kind span) := by
  refine ⟨by rw [root_push, h.root], by rw [names_push, h.names], fun {x node} hn => ?_⟩
  obtain ⟨node', hn', hkind, hspan⟩ := h.node? hn
  obtain ⟨last, hlast, hkind', hspan'⟩ :=
    node?_foldl_link_of_node? ⟨arena.size⟩ kind.children (node?_nodes_push hn' _)
  exact ⟨last, hlast, hkind'.trans hkind, hspan'.trans hspan⟩

/-- A subtree that is retained is the same subtree. -/
theorem Retains.tree_eq (h : base.Retains arena) (hb : base.Showing) (ha : arena.Showing)
    (hn : base.node? id = some node) : arena.tree id = base.tree id := by
  obtain ⟨vb, hvb⟩ := hb.shows
  obtain ⟨va, hva⟩ := ha.shows
  exact hvb.tree_congr hva h.names hn fun hx _ => h.node? hx

end Arena

namespace Edit

open Arena

variable {α β : Type} {base arena arena' : Arena} {id copy : NodeId} {node : Node}

/-- An allocation retains every node, its children's links aside. -/
theorem retains_alloc (kind : ArenaKind) (span : Span) :
    Keeps base.Retains (alloc kind span) := by
  intro arena h
  rw [after, run_alloc]
  by_cases hm : NodeId.maxIndex < arena.size
  · rwa [if_pos hm]
  · rw [if_neg hm]
    cases arena.checkNew kind with
    | error v => exact h
    | ok u => exact h.push kind span

/-! ## Counting nodes -/

/-- A change that adds a number of nodes wherever it is made to an arena that retains a given one,
and leads to another such arena. -/
def Gains (base : Arena) (count : Nat) (edit : Edit α) : Prop :=
  ∀ {arena a arena'}, base.Retains arena → edit.run arena = .ok a arena' →
    base.Retains arena' ∧ arena'.size = arena.size + count

namespace Gains

/-- A value given back gains nothing. -/
theorem pure (a : α) : Gains base 0 (Pure.pure a : Edit α) := by
  intro arena b arena' hr h
  cases h
  exact ⟨hr, rfl⟩

/-- Two changes gain what each of them does. -/
theorem bind {m n : Nat} {x : Edit α} {f : α → Edit β} (hx : Gains base m x)
    (hf : ∀ a, Gains base n (f a)) : Gains base (m + n) (x >>= f) := by
  intro arena b arena' hr h
  obtain ⟨a, middle, hfirst, hsecond⟩ := run_bind_eq_ok.1 h
  obtain ⟨hmiddle, hm⟩ := hx hr hfirst
  obtain ⟨hlast, hn⟩ := hf a hmiddle hsecond
  exact ⟨hlast, by rw [hn, hm, Nat.add_assoc]⟩

/-- Changes one after the other gain what each of them does. -/
theorem mapM {count : α → Nat} {f : α → Edit β} {as : List α}
    (hf : ∀ a ∈ as, Gains base (count a) (f a)) : Gains base (as.map count).sum (as.mapM f) := by
  induction as with
  | nil => exact pure _
  | cons a as ih =>
    rw [List.mapM_cons, List.map_cons, List.sum_cons]
    exact bind (hf a List.mem_cons_self) fun b =>
      bind (n := 0) (ih fun a ha => hf a (List.mem_cons_of_mem _ ha)) fun bs => pure _

/-- Rebuilding a kind adds what is added for its occupants. -/
theorem traverse {τ : Type} {count : α → Nat} {f : α → Edit β} {kind : NodeKind τ α}
    (hf : ∀ c ∈ kind.occupants, Gains base (count c) (f c)) :
    Gains base (kind.occupants.map count).sum
      (kind.traverse Pure.pure (fun _ => f) (fun _ cs => cs.mapM f)) := by
  intro arena kind' arena' hr h
  have hdiscard := congrArg (fun edit : Edit Unit => edit.run arena)
    (discard_traverse Pure.pure f kind)
  simp only [run_bind_ok h, run_bind_ok (yields_pure kind.texts arena)] at hdiscard
  obtain ⟨bs, last, hall, hlast⟩ := run_bind_eq_ok.1 hdiscard.symm
  cases hlast
  exact mapM hf hr hall

/-- An allocation gains one node, or none if it is refused. -/
theorem alloc (kind : ArenaKind) (span : Span) : Gains base 1 (Edit.alloc kind span) := by
  intro arena id arena' hr h
  have hafter := retains_alloc kind span arena hr
  rw [after_of_run_ok h] at hafter
  obtain ⟨-, -, -, rfl⟩ := run_alloc_eq_ok.1 h
  exact ⟨hafter, size_push ..⟩

/-- A copy has as many nodes as the tree that is copied. -/
theorem copyUpTo (hb : base.Linked) (depth : Nat)
    (hid : id = .absent ∨ ∃ node, base.node? id = some node) :
    Gains base (base.treeUpTo depth id).preorder.length (copyUpTo depth id) := by
  induction depth generalizing id with
  | zero => exact pure _
  | succ depth ih =>
    intro arena copy arena' hr h
    rw [Edit.copyUpTo, run_read_bind] at h
    rcases hid with rfl | ⟨node, hn⟩
    · cases h
      exact ⟨hr, rfl⟩
    · obtain ⟨node', hn', hkind, -⟩ := hr.node? hn
      simp only [hn', hkind] at h
      have hoccupants : ∀ c ∈ node.kind.occupants,
          Gains base (base.treeUpTo depth c).preorder.length (Edit.copyUpTo depth c) := by
        intro c hc
        refine ih ?_
        rcases hb.occupant_cases hn hc with hca | ⟨-, child, -, hchild, -⟩
        · exact .inl hca
        · exact .inr ⟨child, hchild⟩
      have hlength : (base.treeUpTo (depth + 1) id).preorder.length =
          (node.kind.occupants.map fun c => (base.treeUpTo depth c).preorder.length).sum + 1 := by
        rw [treeUpTo, hn, Tree.preorder_node, NodeKind.occupants_map, List.length_cons,
          List.length_flatMap, List.map_map]
        rfl
      rw [hlength]
      exact bind (traverse hoccupants) (fun kind => alloc kind node'.span) hr h

end Gains

/-- A copy adds the nodes of the tree that is copied, no more and no less. -/
theorem size_copySubtree (hl : arena.Linked) (h : (copySubtree id).run arena = .ok copy arena') :
    arena'.size = arena.size + (arena.spans id).preorder.length := by
  rw [copySubtree, run_read_bind, run_ofExcept_bind] at h
  split at h
  next node hn =>
    rw [spans, Tree.preorder_mapInfo, List.length_map]
    exact (Gains.copyUpTo hl arena.size (.inr ⟨node, require_eq_ok.1 hn⟩) (.refl arena) h).2
  next => cases h

end Edit

end JavaFold
