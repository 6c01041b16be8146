import JavaFold.Proofs.Arena.Links

/-!
# What the checks before a change establish

Each change of an arena is preceded by a check. Here the outcome of every check is put as a
statement about the nodes involved, so that nothing later has to look into the checks again.
-/

namespace JavaFold

/-! ## Taking checks apart -/

section

variable {ε α β : Type}

/-- A check that gives a value back passes with that value. -/
@[simp] theorem pure_eq_ok {a b : α} : (pure a : Except ε α) = .ok b ↔ a = b := by
  simp [pure, Except.pure]

@[simp] theorem throw_ne_ok {e : ε} {a : α} : (throw e : Except ε α) ≠ .ok a := nofun

/-- Two checks in sequence pass if and only if both do. -/
theorem bind_eq_ok {x : Except ε α} {f : α → Except ε β} {b : β} :
    (x >>= f) = .ok b ↔ ∃ a, x = .ok a ∧ f a = .ok b := by
  cases x <;> simp [bind, Except.bind]

/-- A check that is refused under a condition passes only where the condition fails. -/
theorem refuse_eq_ok {p : Prop} [Decidable p] {e : ε} {x : Except ε α} {a : α} :
    (if p then throw e else x) = .ok a ↔ ¬ p ∧ x = .ok a := by
  split <;> simp_all

end

/-! ## Checks -/

namespace Arena

variable {arena : Arena} {id old new parent : NodeId} {location : Location}

/-- A node that can become a child: it is there, is not the root and has no parent. -/
def Attachable (arena : Arena) (id : NodeId) : Prop :=
  ∃ node, arena.node? id = some node ∧ id ≠ arena.root ∧ node.parent.isPresent = false

private theorem checkAttachable_eq_ok : arena.checkAttachable id = .ok
    () ↔ arena.Attachable id := by
  simp only [checkAttachable, Attachable, bind_eq_ok, require_eq_ok, refuse_eq_ok, pure_eq_ok]
  simp

/-- New children pass if each is a node without a parent that is not the root, and none is named
twice. -/
theorem checkChildren_eq_ok {earlier children : List NodeId} :
    arena.checkChildren parent earlier children = .ok () ↔
      (∀ c ∈ children, arena.Attachable c) ∧ children.Nodup ∧ ∀ c ∈ children, c ∉ earlier := by
  induction children generalizing earlier with
  | nil => simp [checkChildren]
  | cons child rest ih =>
    simp only [checkChildren, bind_eq_ok, require_eq_ok, refuse_eq_ok, ih, List.contains_iff_mem,
      List.mem_append, List.mem_singleton, List.forall_mem_cons, List.nodup_cons]
    constructor
    · rintro ⟨node, -, ⟨⟩, ha, he, h, hn, hd⟩
      refine ⟨⟨checkAttachable_eq_ok.1 ha, h⟩, ⟨fun hc => hd child hc (.inr rfl), hn⟩, he, ?_⟩
      exact fun c hc hce => hd c hc (.inl hce)
    · rintro ⟨⟨ha, h⟩, ⟨hc, hn⟩, he, hd⟩
      have hcheck := checkAttachable_eq_ok.2 ha
      obtain ⟨node, hnode, -⟩ := ha
      refine ⟨node, hnode, (), hcheck, he, h, hn, ?_⟩
      rintro c hm (hce | rfl)
      · exact hd c hm hce
      · exact hc hm

/-- A root is accepted if it is a node without a parent. -/
theorem checkParentless_eq_ok :
    arena.checkParentless id = .ok () ↔
      ∃ node, arena.node? id = some node ∧ node.parent.isPresent = false := by
  simp only [checkParentless, bind_eq_ok, require_eq_ok, refuse_eq_ok, pure_eq_ok]
  simp

/-- How a node is attached: it is not the root, and its parent holds it at its location. -/
def AttachedAt (arena : Arena) (id parent : NodeId) (location : Location) : Prop :=
  ∃ node pnode, arena.node? id = some node ∧ id ≠ arena.root ∧ node.parent = parent ∧
    node.location = some location ∧ arena.node? parent = some pnode ∧
    pnode.kind.get? location = some id

/-- The root is at no location; any other node has to have a parent and a location in it. -/
theorem locationOf_eq_ok {result : Option Location} :
    arena.locationOf id = .ok result ↔
      ∃ node, arena.node? id = some node ∧
        (id = arena.root ∧ result = none ∨
          id ≠ arena.root ∧ node.parent.isPresent = true ∧ node.location = result ∧
            result ≠ none) := by
  simp only [locationOf, bind_eq_ok, require_eq_ok]
  refine exists_congr fun node => and_congr_right fun _ => ?_
  by_cases hr : id = arena.root
  · simp [hr, eq_comm (a := result)]
  · cases node.parent.isPresent with
    | false => simp [hr]
    | true =>
      cases node.location <;> cases result <;> simp [hr]

/-- A location is resolved if its parent exists and has a child there. -/
theorem resolve_eq_ok {child : NodeId} :
    arena.resolve parent location = .ok child ↔
      ∃ node, arena.node? parent = some node ∧ node.kind.get? location = some child := by
  simp only [resolve, bind_eq_ok, require_eq_ok]
  refine exists_congr fun node => and_congr_right fun _ => ?_
  cases node.kind.get? location <;> simp

/-- The place of a node is given if its parent holds it where the node says. -/
private theorem attachedSlot_eq_ok :
    arena.attachedSlot id = .ok (parent, location) ↔ arena.AttachedAt id parent location := by
  simp only [attachedSlot, bind_eq_ok, require_eq_ok, AttachedAt, locationOf_eq_ok]
  constructor
  · rintro ⟨node, hn, result, ⟨node', hn', hcases⟩, h⟩
    cases Option.some.inj (hn.symm.trans hn')
    cases result with
    | none => simp at h
    | some l =>
      obtain ⟨held, hres, he⟩ := bind_eq_ok.1 h
      obtain ⟨pnode, hp, hg⟩ := resolve_eq_ok.1 hres
      split at he
      next hheld =>
        cases pure_eq_ok.1 he
        rcases hcases with ⟨-, hc⟩ | ⟨hr, -, hl, -⟩
        · cases hc
        · exact ⟨node, pnode, hn, hr, rfl, hl, hp, hheld ▸ hg⟩
      next => simp at he
  · rintro ⟨node, pnode, hn, hr, rfl, hl, hp, hg⟩
    refine ⟨node, hn, some location, ⟨node, hn, .inr ⟨hr, isPresent_of_node? hp, hl, nofun⟩⟩, ?_⟩
    exact bind_eq_ok.2 ⟨id, resolve_eq_ok.2 ⟨pnode, hp, hg⟩, by simp⟩

/-- A replacement is accepted if the new node is detached, neither the root nor above the old one,
and the old one is attached. -/
theorem checkReplacement_eq_ok :
    arena.checkReplacement old new = .ok (parent, location) ↔
      (∃ node, arena.node? new = some node ∧ node.parent.isPresent = false) ∧
      arena.AttachedAt old parent location ∧ arena.isAncestorOrSelf new old = false ∧
      new ≠ arena.root := by
  simp only [checkReplacement, bind_eq_ok, require_eq_ok, refuse_eq_ok, pure_eq_ok,
    Bool.or_eq_true, decide_eq_true_eq, not_or, Bool.not_eq_true]
  constructor
  · rintro ⟨node, hn, slot, hs, ha, ⟨hr, hp⟩, rfl⟩
    exact ⟨⟨node, hn, hp⟩, attachedSlot_eq_ok.1 hs, ha, hr⟩
  · rintro ⟨⟨node, hn, hp⟩, hs, ha, hr⟩
    exact ⟨node, hn, _, attachedSlot_eq_ok.2 hs, ha, ⟨hr, hp⟩, rfl⟩

/-- A removal is accepted if the node is attached, and in a slot that may be empty or in a list. -/
theorem checkRemoval_eq_ok :
    arena.checkRemoval id = .ok (parent, location) ↔
      arena.AttachedAt id parent location ∧ ∀ property, location = .single property →
        ∃ node, arena.node? parent = some node ∧ node.tag.isOptional property = true := by
  simp only [checkRemoval, bind_eq_ok]
  constructor
  · rintro ⟨⟨p, l⟩, hs, h⟩
    cases l with
    | element q i =>
      cases pure_eq_ok.1 h
      exact ⟨attachedSlot_eq_ok.1 hs, nofun⟩
    | single q =>
      obtain ⟨node, hn, h⟩ := bind_eq_ok.1 h
      split at h
      next ho =>
        cases pure_eq_ok.1 h
        refine ⟨attachedSlot_eq_ok.1 hs, ?_⟩
        rintro property he
        cases he
        exact ⟨node, require_eq_ok.1 hn, ho⟩
      next => simp at h
  · rintro ⟨hs, ho⟩
    refine ⟨_, attachedSlot_eq_ok.2 hs, ?_⟩
    cases location with
    | element q i => simp
    | single q =>
      obtain ⟨node, hn, ho⟩ := ho q rfl
      exact bind_eq_ok.2 ⟨node, require_eq_ok.2 hn, by simp [ho]⟩

end Arena

end JavaFold
