import JavaFold.Proofs.Arena.Reachable

/-!
# When a change is made

Every change of an arena is made exactly under a condition on the nodes involved (`Guarded`). A
refusal leaves the arena as it was. The checks also look for links whose records disagree, and since
no operation leads to such links, no refusal is ever for one of them (`Blameless`).
-/

namespace JavaFold

/-- Whether a refusal says that the records of a link disagree: there is a parent and no location,
the parent has no such location, or it holds another node there. -/
def Violation.blamesLinks : Violation → Bool
  | missingLocation .. | unsupportedLocation .. | slotMismatch .. => true
  | _ => false

/-! ## Checks that blame no link -/

/-- A check that is never refused because the records of a link disagree. -/
def Blameless {α : Type} (check : Except Violation α) : Prop :=
  ∀ violation, check = .error violation → violation.blamesLinks = false

namespace Blameless

variable {α β : Type} {check : Except Violation α}

/-- A check that passes blames nothing. -/
theorem pure (a : α) : Blameless (Pure.pure a : Except Violation α) :=
  fun _ => nofun

/-- A violation that is thrown must not be one that blames the links. -/
theorem throw {violation : Violation} (h : violation.blamesLinks = false) :
    Blameless (MonadExcept.throw violation : Except Violation α) := by
  intro v hv
  cases hv
  exact h

/-- Checks in sequence blame no link if neither does, the second knowing that the first passed. -/
theorem bind {f : α → Except Violation β} (h : Blameless check)
    (hf : ∀ a, check = .ok a → Blameless (f a)) : Blameless (check >>= f) := by
  intro violation hv
  cases hc : check with
  | error v =>
    rw [hc] at hv
    cases hv
    exact h _ hc
  | ok a =>
    rw [hc] at hv
    exact hf a hc violation hv

/-- A branch blames no link if neither side does, each knowing the condition. -/
theorem ite {p : Prop} [Decidable p] {other : Except Violation α} (h : p → Blameless check)
    (h' : ¬ p → Blameless other) : Blameless (if p then check else other) := by
  split
  next hp => exact h hp
  next hp => exact h' hp

end Blameless

namespace Arena

variable {arena : Arena} {id old new parent : NodeId}

private theorem blameless_require (arena : Arena) (id : NodeId) : Blameless (arena.require id) := by
  rw [require]
  cases arena.node? id with
  | some node => exact .pure node
  | none => exact .throw rfl

private theorem blameless_checkAttachable (arena : Arena) (id : NodeId) :
    Blameless (arena.checkAttachable id) :=
  .bind (blameless_require arena id) fun _ _ =>
    .ite (fun _ => .throw rfl) fun _ => .ite (fun _ => .throw rfl) fun _ => .pure ()

private theorem blameless_checkChildren (arena : Arena) (parent : NodeId)
    (earlier children : List NodeId) :
    Blameless (arena.checkChildren parent earlier children) := by
  induction children generalizing earlier with
  | nil => exact .pure ()
  | cons child rest ih =>
    refine .bind (blameless_require arena child) fun _ _ => ?_
    refine .bind (blameless_checkAttachable arena child) fun _ _ => ?_
    exact .ite (fun _ => .throw rfl) fun _ => ih _

private theorem blameless_childSlots (kind : ArenaKind) : Blameless kind.childSlots := by
  by_cases h : kind.Listable
  · rw [NodeKind.childSlots_of_listable h]
    exact .pure _
  · rw [NodeKind.childSlots_of_not_listable h]
    exact .throw rfl

private theorem blameless_checkNew (arena : Arena) (kind : ArenaKind) : Blameless
    (arena.checkNew kind) :=
  .bind (blameless_childSlots kind) fun _ _ => blameless_checkChildren arena _ _ _

private theorem blameless_checkParentless (arena : Arena) (id : NodeId) :
    Blameless (arena.checkParentless id) :=
  .bind (blameless_require arena id) fun _ _ => .ite (fun _ => .throw rfl) fun _ => .pure ()

namespace Linked

/-- A node with a parent has a location. -/
theorem blameless_locationOf (hl : arena.Linked) (id : NodeId) :
    Blameless (arena.locationOf id) := by
  refine .bind (blameless_require arena id) fun node hn => .ite (fun _ => .pure none) fun _ => ?_
  refine .ite (fun _ => .throw rfl) fun hp => ?_
  rw [Bool.not_eq_true, Bool.not_eq_false'] at hp
  obtain ⟨location, -, hloc, -⟩ := hl.up (require_eq_ok.1 hn) hp
  rw [hloc]
  exact .pure _

/-- A node is found at its location. -/
theorem blameless_attachedSlot (hl : arena.Linked) (id : NodeId) :
    Blameless (arena.attachedSlot id) := by
  refine .bind (blameless_require arena id) fun node hn => ?_
  refine .bind (hl.blameless_locationOf id) fun result hr => ?_
  cases result with
  | none => exact .throw rfl
  | some location =>
    obtain ⟨node', hn', ⟨-, hnone⟩ | ⟨-, hp, hloc, -⟩⟩ := locationOf_eq_ok.1 hr
    · cases hnone
    · cases Option.some.inj ((require_eq_ok.1 hn).symm.trans hn')
      obtain ⟨location', pnode, hloc', hpn, hg⟩ := hl.up hn' hp
      cases Option.some.inj (hloc.symm.trans hloc')
      have hheld : arena.resolve node.parent location = .ok id :=
        resolve_eq_ok.2 ⟨pnode, hpn, hg⟩
      simp only [hheld]
      exact .ite (fun _ => .pure _) fun hne => absurd rfl hne

private theorem blameless_checkReplacement (hl : arena.Linked) (old new : NodeId) :
    Blameless (arena.checkReplacement old new) := by
  refine .bind (blameless_require arena new) fun node _ => ?_
  refine .bind (hl.blameless_attachedSlot old) fun slot _ => ?_
  exact .ite (fun _ => .throw rfl) fun _ => .ite (fun _ => .throw rfl) fun _ => .pure slot

private theorem blameless_checkRemoval (hl : arena.Linked) (id : NodeId) :
    Blameless (arena.checkRemoval id) := by
  refine .bind (hl.blameless_attachedSlot id) fun slot _ => ?_
  obtain ⟨parent, location⟩ := slot
  cases location with
  | element property index => exact .pure _
  | single property =>
    refine .bind (blameless_require arena parent) fun node _ => ?_
    exact .ite (fun _ => .pure _) fun _ => .throw rfl

end Linked

/-! ## Conditions -/

/-- A change that is made exactly under a condition. Refused, it leaves the arena as it was and
blames no link. -/
structure Guarded {α : Type} (edit : Edit α) (arena : Arena) (condition : Prop) : Prop where
  /-- The change is made exactly under the condition. -/
  made_iff : (∃ a arena', edit.run arena = .ok a arena') ↔ condition
  /-- A refusal changes nothing and does not blame a link. -/
  refused : ∀ {violation arena'}, edit.run arena = .error violation arena' →
    arena' = arena ∧ violation.blamesLinks = false

/-- A change that comes down to one check is made exactly if the check passes. -/
theorem Guarded.of_check {α β : Type} {edit : Edit α} {condition : Prop}
    (check : Except Violation β)
    (hok : ∀ b, check = .ok b → ∃ a arena', edit.run arena = .ok a arena')
    (herror : ∀ v, check = .error v → edit.run arena = .error v arena) (hb : Blameless check)
    (hcheck : (∃ b, check = .ok b) ↔ condition) : Guarded edit arena condition := by
  rw [← hcheck]
  cases hc : check with
  | ok b =>
    obtain ⟨a, arena', hrun⟩ := hok b hc
    refine ⟨⟨fun _ => ⟨b, rfl⟩, fun _ => ⟨a, arena', hrun⟩⟩, fun h => ?_⟩
    rw [hrun] at h
    cases h
  | error v =>
    have hrun := herror v hc
    refine ⟨⟨?_, ?_⟩, fun h => ?_⟩
    · rintro ⟨a, arena', h⟩
      rw [hrun] at h
      cases h
    · rintro ⟨b, h⟩
      cases h
    · rw [hrun] at h
      cases h
      exact ⟨rfl, hb v hc⟩

/-- A node that can become a child is there, has no parent and is not the root. -/
theorem attachable_iff :
    arena.Attachable id ↔
      arena.contains id = true ∧ arena.parent? id = none ∧ id ≠ arena.root := by
  rw [contains_iff]
  constructor
  · rintro ⟨node, hn, hr, hp⟩
    exact ⟨⟨node, hn⟩, (parent?_eq_none_of_node? hn).2 hp, hr⟩
  · rintro ⟨⟨node, hn⟩, hp, hr⟩
    exact ⟨node, hn, hr, (parent?_eq_none_of_node? hn).1 hp⟩

private theorem exists_parentless_iff :
    (∃ node, arena.node? id = some node ∧ node.parent.isPresent = false) ↔
      arena.contains id = true ∧ arena.parent? id = none := by
  rw [contains_iff]
  constructor
  · rintro ⟨node, hn, hp⟩
    exact ⟨⟨node, hn⟩, (parent?_eq_none_of_node? hn).2 hp⟩
  · rintro ⟨⟨node, hn⟩, hp⟩
    exact ⟨node, hn, (parent?_eq_none_of_node? hn).1 hp⟩

namespace Linked

/-- In a linked arena, a node sits in the slot that its parent and its location name. -/
theorem attachedAt_iff (hl : arena.Linked) {location : Location} :
    arena.AttachedAt id parent location ↔ arena.contains id = true ∧ id ≠ arena.root ∧
      arena.parent? id = some parent ∧ arena.location? id = some location := by
  constructor
  · intro h
    have hp := h.parent?_eq
    obtain ⟨node, pnode, hn, hr, -, hloc, -⟩ := h
    refine ⟨contains_iff.2 ⟨node, hn⟩, hr, hp, ?_⟩
    rw [location?, hn, Option.bind_some, hloc]
  · rintro ⟨-, hr, hp, hloc⟩
    obtain ⟨node, hn, rfl, hpp⟩ := parent?_eq_some.1 hp
    rw [location?, hn, Option.bind_some] at hloc
    obtain ⟨location', pnode, hloc', hpn, hg⟩ := hl.up hn hpp
    cases Option.some.inj (hloc.symm.trans hloc')
    exact ⟨node, pnode, hn, hr, rfl, hloc, hpn, hg⟩

private theorem exists_attachedAt_iff (hl : arena.Linked) :
    (∃ parent location, arena.AttachedAt id parent location) ↔
      arena.contains id = true ∧ id ≠ arena.root ∧ ∃ parent, arena.parent? id = some parent := by
  constructor
  · rintro ⟨parent, location, h⟩
    obtain ⟨hc, hr, hp, -⟩ := hl.attachedAt_iff.1 h
    exact ⟨hc, hr, parent, hp⟩
  · rintro ⟨-, -, parent, hp⟩
    obtain ⟨node, hn, rfl, hpp⟩ := parent?_eq_some.1 hp
    obtain ⟨location, h⟩ := hl.attachedAt hn hpp
    exact ⟨node.parent, location, h⟩

/-- A replacement is accepted under its condition, and refused otherwise without blame for the
links. -/
private theorem guarded_replaceChild (hl : arena.Linked) (old new : NodeId) :
    Guarded (Edit.replaceChild old new) arena
      (arena.contains old = true ∧ arena.contains new = true ∧ old ≠ arena.root ∧
        (∃ parent, arena.parent? old = some parent) ∧ ¬ arena.Under new old ∧ new ≠ arena.root ∧
        arena.parent? new = none) := by
  refine .of_check (arena.checkReplacement old new) ?_ ?_
    (hl.blameless_checkReplacement old new) ?_
  · rintro ⟨parent, location⟩ h
    exact ⟨(), _, by rw [Edit.run_replaceChild, h]⟩
  · intro v h
    rw [Edit.run_replaceChild, h]
  · constructor
    · rintro ⟨⟨parent, location⟩, h⟩
      obtain ⟨hold, hnew, hr, hu⟩ := hl.checkReplacement_eq_ok_iff.1 h
      obtain ⟨hoc, hor, hop⟩ := hl.exists_attachedAt_iff.1 ⟨parent, location, hold⟩
      obtain ⟨hnc, hnp⟩ := exists_parentless_iff.1 hnew
      exact ⟨hoc, hnc, hor, hop, hu, hr, hnp⟩
    · rintro ⟨hoc, hnc, hor, hop, hu, hr, hnp⟩
      obtain ⟨parent, location, hold⟩ := hl.exists_attachedAt_iff.2 ⟨hoc, hor, hop⟩
      exact ⟨(parent, location), hl.checkReplacement_eq_ok_iff.2
        ⟨hold, exists_parentless_iff.2 ⟨hnc, hnp⟩, hr, hu⟩⟩

/-- A removal is accepted under its condition, and refused otherwise without blame for the links. -/
private theorem guarded_removeChild (hl : arena.Linked) (id : NodeId) :
    Guarded (Edit.removeChild id) arena
      (arena.contains id = true ∧ id ≠ arena.root ∧ ∃ parent location,
        arena.parent? id = some parent ∧ arena.location? id = some location ∧
        ∀ property, location = .single property →
          ∃ node, arena.node? parent = some node ∧ node.tag.isOptional property = true) := by
  refine .of_check (arena.checkRemoval id) ?_ ?_ (hl.blameless_checkRemoval id) ?_
  · rintro ⟨parent, location⟩ h
    exact ⟨(), _, by rw [Edit.run_removeChild, h]⟩
  · intro v h
    rw [Edit.run_removeChild, h]
  · constructor
    · rintro ⟨⟨parent, location⟩, h⟩
      obtain ⟨hat, hoptional⟩ := checkRemoval_eq_ok.1 h
      obtain ⟨hc, hr, hp, hloc⟩ := hl.attachedAt_iff.1 hat
      exact ⟨hc, hr, parent, location, hp, hloc, hoptional⟩
    · rintro ⟨hc, hr, parent, location, hp, hloc, hoptional⟩
      exact ⟨(parent, location),
        checkRemoval_eq_ok.2 ⟨hl.attachedAt_iff.2 ⟨hc, hr, hp, hloc⟩, hoptional⟩⟩

end Linked

/-- An allocation is accepted under its condition, and refused otherwise without blame for the
links. -/
private theorem guarded_alloc (hs : arena.size < NodeId.maxIndex) (kind : ArenaKind) (span : Span) :
    Guarded (Edit.alloc kind span) arena
      ((∀ c ∈ kind.children.map Prod.snd,
        arena.contains c = true ∧ arena.parent? c = none ∧ c ≠ arena.root) ∧
        (kind.children.map Prod.snd).Nodup) := by
  have hroom : ¬ NodeId.maxIndex < arena.size := by omega
  refine .of_check (arena.checkNew kind) ?_ ?_ (blameless_checkNew arena kind) ?_
  · intro u h
    exact ⟨_, _, by rw [Edit.run_alloc, if_neg hroom, h]⟩
  · intro v h
    rw [Edit.run_alloc, if_neg hroom, h]
  · simp only [← attachable_iff]
    constructor
    · rintro ⟨u, h⟩
      obtain ⟨hattachable, hnodup⟩ := (checkNew_eq_ok hs.le).1 h
      exact ⟨hattachable, hnodup⟩
    · rintro ⟨hattachable, hnodup⟩
      exact ⟨(), (checkNew_eq_ok hs.le).2 ⟨hattachable, hnodup⟩⟩

private theorem guarded_setRoot (arena : Arena) (id : NodeId) :
    Guarded (Edit.setRoot id) arena (arena.contains id = true ∧ arena.parent? id = none) := by
  refine .of_check (arena.checkParentless id) ?_ ?_ (blameless_checkParentless arena id) ?_
  · intro u h
    exact ⟨(), _, by rw [Edit.run_setRoot, h]⟩
  · intro v h
    rw [Edit.run_setRoot, h]
  · rw [← exists_parentless_iff, ← checkParentless_eq_ok]
    exact ⟨fun ⟨_, h⟩ => h, fun h => ⟨(), h⟩⟩

/-- In every arena that operations lead to, each change is made exactly under a condition on its
arguments, a refused one changes nothing, and no refusal blames a link. A removal needs a place in a
list or a single slot that may be empty. -/
theorem reachable_changes_guarded (h : arena.Reachable) (hs : arena.size < NodeId.maxIndex) :
    (∀ old new, Guarded (Edit.replaceChild old new) arena
      (arena.contains old = true ∧ arena.contains new = true ∧ old ≠ arena.root ∧
        (∃ parent, arena.parent? old = some parent) ∧ ¬ arena.Under new old ∧ new ≠ arena.root ∧
        arena.parent? new = none)) ∧
    (∀ id, Guarded (Edit.removeChild id) arena
      (arena.contains id = true ∧ id ≠ arena.root ∧ ∃ parent location,
        arena.parent? id = some parent ∧ arena.location? id = some location ∧
        ∀ property, location = .single property →
          ∃ node, arena.node? parent = some node ∧ node.tag.isOptional property = true)) ∧
    (∀ kind span, Guarded (Edit.alloc kind span) arena
      ((∀ c ∈ kind.children.map Prod.snd,
        arena.contains c = true ∧ arena.parent? c = none ∧ c ≠ arena.root) ∧
        (kind.children.map Prod.snd).Nodup)) ∧
    (∀ id, Guarded (Edit.setRoot id) arena
      (arena.contains id = true ∧ arena.parent? id = none)) ∧
    (∀ id, Guarded (Edit.replaceRoot id) arena
      (arena.contains id = true ∧ arena.parent? id = none)) ∧
    ∀ id violation, arena.locationOf id = .error violation → violation.blamesLinks = false := by
  have hl := h.linkedIfSmall hs.le
  exact ⟨hl.guarded_replaceChild, hl.guarded_removeChild, guarded_alloc hs, guarded_setRoot arena,
    guarded_setRoot arena, hl.blameless_locationOf⟩

/-- A returned literal: another literal can take its place, the statement above it cannot, and it
can be taken out, since nothing has to be returned. -/
theorem reachable_changes_guarded_returned :
    ∃ arena replaced removed violation, arena = [Operation.alloc .nullLiteral ⟨7, 11⟩,
        .alloc (.returnStatement ⟨0⟩) ⟨0, 12⟩,
        .alloc .nullLiteral ⟨0, 4⟩].foldl Operation.perform .empty ∧
      (Edit.replaceChild ⟨0⟩ ⟨2⟩).run arena = .ok () replaced ∧
      (Edit.replaceChild ⟨0⟩ ⟨1⟩).run arena = .error violation arena ∧
      (Edit.removeChild ⟨0⟩).run arena = .ok () removed := by
  obtain ⟨arena, ha⟩ : ∃ arena, arena = [Operation.alloc .nullLiteral ⟨7, 11⟩,
    .alloc (.returnStatement ⟨0⟩) ⟨0, 12⟩,
    .alloc .nullLiteral ⟨0, 4⟩].foldl Operation.perform .empty := ⟨_, rfl⟩
  have hreachable : arena.Reachable := ha ▸ Reachable.empty.performAll _
  have hs : arena.size < NodeId.maxIndex := by
    rw [ha]
    decide
  have hparent : arena.parent? ⟨0⟩ = some ⟨1⟩ ∧ arena.parent? ⟨1⟩ = none := by
    rw [ha]
    decide
  have habove : arena.Under ⟨1⟩ ⟨0⟩ := .step hparent.1 .self
  have hapart : ¬ arena.Under ⟨2⟩ ⟨0⟩ := by
    intro hu
    cases hu with
    | step hp hu =>
      cases Option.some.inj (hp.symm.trans hparent.1)
      cases hu with
      | step hp' _ => simp [hparent.2] at hp'
  obtain ⟨hreplace, hremove, -⟩ := reachable_changes_guarded hreachable hs
  have hfacts : arena.contains ⟨0⟩ = true ∧ arena.contains ⟨2⟩ = true ∧ ⟨0⟩ ≠ arena.root ∧
      ⟨2⟩ ≠ arena.root ∧ arena.parent? ⟨2⟩ = none ∧
      arena.location? ⟨0⟩ = some (.single .expression) ∧
      (arena.node? ⟨1⟩).map Node.tag = some .returnStatement := by
    rw [ha]
    decide
  obtain ⟨hc, hc', hr, hr', hp, hloc, htag⟩ := hfacts
  obtain ⟨_, replaced, hreplaced⟩ :=
    (hreplace ⟨0⟩ ⟨2⟩).made_iff.2 ⟨hc, hc', hr, ⟨_, hparent.1⟩, hapart, hr', hp⟩
  obtain ⟨_, removed, hremoved⟩ := (hremove ⟨0⟩).made_iff.2 ⟨hc, hr, _, _, hparent.1, hloc, by
    rintro property he
    cases he
    obtain ⟨node, hn, htag⟩ := Option.map_eq_some_iff.1 htag
    exact ⟨node, hn, by rw [htag]; rfl⟩⟩
  cases hrun : (Edit.replaceChild ⟨0⟩ ⟨1⟩).run arena with
  | ok u arena' =>
    obtain ⟨-, -, -, -, hnot, -⟩ := (hreplace ⟨0⟩ ⟨1⟩).made_iff.1 ⟨u, arena', hrun⟩
    exact absurd habove hnot
  | error violation arena' =>
    obtain ⟨rfl, -⟩ := (hreplace ⟨0⟩ ⟨1⟩).refused hrun
    exact ⟨arena', replaced, removed, violation, ha, hreplaced, hrun, hremoved⟩

end Arena

end JavaFold
