import JavaFold.Proofs.Arena.Preservation

/-!
# Outcomes of changes

What each change of an arena gives, put as one equation: a check decides between a refusal, which
leaves the arena alone, and one write. Changes made one after the other are taken apart by
`Edit.run_bind_ok` and `Edit.run_bind_error`. What a longer change leads to is stated by
`Edit.Ends`, which says nothing about an arena with more nodes than handles, so that no step has to
argue that there is room for one more node.
-/

namespace JavaFold

namespace Edit

variable {α β : Type} {arena arena' : Arena}

/-! ## Sequences -/

/-- A value that is given back leaves the arena as it is. -/
@[simp] theorem run_return (a : α) (arena : Arena) :
    (pure a : Edit α).run arena = .ok a arena := rfl

/-- Behind a step that succeeded the next one runs on the arena it left. -/
theorem run_bind_ok {x : Edit α} {a : α} (h : x.run arena = .ok a arena') (f : α → Edit β) :
    (x >>= f).run arena = (f a).run arena' := by
  rw [EStateM.run_bind, h]

/-- Behind a step that failed nothing runs. -/
theorem run_bind_error {x : Edit α} {v : Violation} (h : x.run arena = .error v arena')
    (f : α → Edit β) : (x >>= f).run arena = .error v arena' := by
  rw [EStateM.run_bind, h]

/-- A change in two steps succeeds if and only if both do, the second on the arena that the first
leaves. -/
theorem run_bind_eq_ok {x : Edit α} {f : α → Edit β} {b : β} :
    (x >>= f).run arena = .ok b arena' ↔
      ∃ a middle, x.run arena = .ok a middle ∧ (f a).run middle = .ok b arena' := by
  rw [EStateM.run_bind]
  cases x.run arena <;> simp

/-- What follows a change only depends on the outcome of the change. -/
theorem run_bind_congr {x y : Edit α} (h : x.run arena = y.run arena) (f : α → Edit β) :
    (x >>= f).run arena = (y >>= f).run arena := by
  rw [EStateM.run_bind, EStateM.run_bind, h]

@[simp] theorem run_read_bind (f : Arena → Edit β) (arena : Arena) :
    (get >>= f : Edit β).run arena = (f arena).run arena := rfl

@[simp] theorem run_ofExcept_ok (a : α) (arena : Arena) :
    (ofExcept (.ok a)).run arena = .ok a arena := rfl

/-- What follows a check runs in the same arena, if the check passes. -/
theorem run_ofExcept_bind (check : Except Violation α) (f : α → Edit β) (arena : Arena) :
    (ofExcept check >>= f).run arena =
      match check with
      | .ok a => (f a).run arena
      | .error v => .error v arena := by
  cases check <;> rfl

/-! ## Visits one after the other -/

/-- Visiting several nodes visits the first and then the others, and adds up the counts. -/
theorem visitAll_cons (visit : NodeId → Edit Nat) (x : NodeId) (ids : List NodeId) :
    visitAll visit (x :: ids) = (do
      let count ← visit x
      let more ← visitAll visit ids
      return count + more) := by
  have hfrom (count : Nat) :
      (ids.foldlM (fun count id => return count + (← visit id)) count : Edit Nat) =
        (do return count + (← visitAll visit ids)) := by
    induction ids generalizing count with
    | nil => simp [visitAll]
    | cons id ids ih =>
      rw [List.foldlM_cons, visitAll, List.foldlM_cons, bind_assoc, bind_assoc, bind_assoc]
      refine bind_congr fun n => ?_
      rw [pure_bind, pure_bind, ih, ih, bind_assoc]
      simp only [pure_bind, Nat.zero_add, Nat.add_assoc]
  rw [visitAll, List.foldlM_cons, bind_assoc]
  refine bind_congr fun count => ?_
  rw [pure_bind, hfrom, Nat.zero_add]

/-- Visiting a list of one node is visiting the node. -/
theorem visitAll_singleton (visit : NodeId → Edit Nat) (x : NodeId) :
    visitAll visit [x] = visit x := by
  simp only [visitAll, List.foldlM_cons, List.foldlM_nil, Nat.zero_add, bind_pure]

/-- Visiting two lists of nodes in one go is visiting one after the other. -/
theorem visitAll_append (visit : NodeId → Edit Nat) (ids rest : List NodeId) :
    visitAll visit (ids ++ rest) = (do
      let count ← visitAll visit ids
      let more ← visitAll visit rest
      return count + more) := by
  induction ids with
  | nil =>
    simp only [List.nil_append, visitAll, List.foldlM_nil, pure_bind, Nat.zero_add, bind_pure]
  | cons id ids ih =>
    rw [List.cons_append, visitAll_cons, visitAll_cons, ih]
    simp only [bind_assoc, pure_bind, Nat.add_assoc]

/-! ## Single changes -/

/-- A name is interned without a check, and only the names change. -/
theorem run_intern (text : String) (arena : Arena) :
    (intern text).run arena =
      .ok (arena.names.intern text).1 { arena with names := (arena.names.intern text).2 } := rfl

/-- A new node is refused for the size of the arena first and for its children second; otherwise it
takes the next id. -/
theorem run_alloc (kind : ArenaKind) (span : Span) (arena : Arena) :
    (alloc kind span).run arena =
      if NodeId.maxIndex < arena.size then .error (.tooManyNodes arena.size) arena
      else match arena.checkNew kind with
        | .ok _ => .ok ⟨arena.size⟩ (arena.push kind span)
        | .error v => .error v arena := by
  rw [alloc, run_read_bind]
  simp only
  by_cases hs : NodeId.maxIndex < arena.size
  · rw [if_pos hs, if_pos hs]
    rfl
  · rw [if_neg hs, if_neg hs, run_read_bind, run_ofExcept_bind]
    cases arena.checkNew kind <;> rfl

/-- A node gets the number of nodes before it as its handle, the largest one included. -/
theorem run_alloc_eq_ok {kind : ArenaKind} {span : Span} {id : NodeId} :
    (alloc kind span).run arena = .ok id arena' ↔
      arena.size ≤ NodeId.maxIndex ∧ arena.Adoptable kind ∧ id = ⟨arena.size⟩ ∧
        arena' = arena.push kind span := by
  rw [run_alloc, ← Nat.not_lt]
  by_cases hs : NodeId.maxIndex < arena.size
  · simp [hs]
  · rw [if_neg hs, ← Arena.checkNew_eq_ok (Nat.le_of_not_lt hs)]
    cases arena.checkNew kind <;> simp [hs, eq_comm]

/-- A new root is refused or recorded, and nothing else changes. -/
theorem run_setRoot (id : NodeId) (arena : Arena) :
    (setRoot id).run arena =
      match arena.checkParentless id with
      | .ok _ => .ok () { arena with root := id }
      | .error v => .error v arena := by
  rw [setRoot, run_read_bind, run_ofExcept_bind]
  cases arena.checkParentless id <;> rfl

/-- A replacement is checked as a whole before the first write. -/
theorem run_replaceChild (old new : NodeId) (arena : Arena) :
    (replaceChild old new).run arena =
      match arena.checkReplacement old new with
      | .ok (parent, location) => .ok () (arena.replaced old new parent location)
      | .error v => .error v arena := by
  rw [replaceChild, run_read_bind, run_ofExcept_bind]
  cases arena.checkReplacement old new <;> rfl

/-- A removal is checked as a whole before the first write. -/
theorem run_removeChild (id : NodeId) (arena : Arena) :
    (removeChild id).run arena =
      match arena.checkRemoval id with
      | .ok (parent, location) => .ok () (arena.withoutChild parent location id)
      | .error v => .error v arena := by
  rw [removeChild, run_read_bind, run_ofExcept_bind]
  cases arena.checkRemoval id <;> rfl

/-! ## What is kept throughout -/

/-- The arena that a change leaves, whether or not it was refused in the end. -/
def after (edit : Edit α) (arena : Arena) : Arena :=
  match edit.run arena with
  | .ok _ arena => arena
  | .error _ arena => arena

/-- What a change that succeeds leaves is the arena it ran to. -/
theorem after_of_run_ok {edit : Edit α} {a : α} (h : edit.run arena = .ok a arena') :
    edit.after arena = arena' := by
  rw [after, h]

/-- What a change in two steps leaves is what the second leaves, or the first if it fails. -/
theorem after_bind (x : Edit α) (f : α → Edit β) (arena : Arena) :
    (x >>= f).after arena = match x.run arena with
      | .ok a middle => (f a).after middle
      | .error _ middle => middle := by
  simp only [after, EStateM.run_bind]
  cases x.run arena <;> rfl

/-- What holds after the first of two changes, and after the second one wherever the first one is
not refused, holds after both. -/
theorem after_bind_intro {P : Arena → Prop} {x : Edit α} {f : α → Edit β} (hx : P (x.after arena))
    (hf : ∀ a middle, x.run arena = .ok a middle → P ((f a).after middle)) :
    P ((x >>= f).after arena) := by
  rw [after_bind]
  rw [after] at hx
  cases hr : x.run arena with
  | ok a middle => exact hf a middle hr
  | error v middle =>
    rw [hr] at hx
    exact hx

/-- A name is no node. -/
theorem size_after_intern (text : String) (arena : Arena) :
    ((intern text).after arena).size = arena.size := rfl

/-- The choice of a root makes no node. -/
theorem size_after_setRoot (id : NodeId) (arena : Arena) :
    ((setRoot id).after arena).size = arena.size := by
  rw [after, run_setRoot]
  cases arena.checkParentless id <;> rfl

/-- A replacement moves nodes and makes none. -/
theorem size_after_replaceChild (old new : NodeId) (arena : Arena) :
    ((replaceChild old new).after arena).size = arena.size := by
  rw [after, run_replaceChild]
  cases arena.checkReplacement old new with
  | ok slot => exact Arena.size_replaced
  | error violation => rfl

/-- A removed node stays in the arena, detached. -/
theorem size_after_removeChild (id : NodeId) (arena : Arena) :
    ((removeChild id).after arena).size = arena.size := by
  rw [after, run_removeChild]
  cases arena.checkRemoval id with
  | ok slot => exact Arena.size_withoutChild
  | error violation => rfl

/-- What a change gives plays no part in the arena that it leaves. -/
theorem after_discard (x : Edit α) (arena : Arena) :
    (do let _ ← x; pure () : Edit Unit).after arena = x.after arena := by
  rw [after_bind, after]
  cases x.run arena <;> rfl

/-- A change keeps a property of arenas, also when it is refused midway. -/
def Keeps (P : Arena → Prop) (edit : Edit α) : Prop :=
  ∀ arena, P arena → P (edit.after arena)

namespace Keeps

variable {P : Arena → Prop}

/-- Giving a value back keeps everything. -/
theorem pure (a : α) : Keeps P (Pure.pure a : Edit α) :=
  fun _ h => h

/-- Reading the arena keeps everything. -/
theorem read : Keeps P (get : Edit Arena) :=
  fun _ h => h

/-- A check writes nothing, whatever it finds. -/
theorem ofExcept (check : Except Violation α) : Keeps P (Edit.ofExcept check) := by
  intro arena h
  cases check <;> exact h

/-- A property is kept in two steps, also where the second is never reached. -/
theorem bind {x : Edit α} {f : α → Edit β} (hx : Keeps P x) (hf : ∀ a, Keeps P (f a)) :
    Keeps P (x >>= f) := by
  intro arena h
  refine after_bind_intro (hx arena h) fun a middle hr => hf a middle ?_
  rw [← after_of_run_ok hr]
  exact hx arena h

/-- A property is kept over a list of changes if each of them keeps it. -/
theorem mapM {f : α → Edit β} {as : List α} (hf : ∀ a ∈ as, Keeps P (f a)) :
    Keeps P (as.mapM f) := by
  induction as with
  | nil => exact pure _
  | cons a as ih =>
    rw [List.mapM_cons]
    refine bind (hf a (by simp)) fun b => bind (ih fun a ha => hf a (by simp [ha])) fun bs => ?_
    exact pure _

/-- A property is kept over a list of changes that hand a value on if each of them keeps it. -/
theorem foldlM {f : β → α → Edit β} {as : List α} (hf : ∀ b, ∀ a ∈ as, Keeps P (f b a)) (b : β) :
    Keeps P (as.foldlM f b) := by
  induction as generalizing b with
  | nil => exact pure _
  | cons a as ih =>
    rw [List.foldlM_cons]
    exact bind (hf b a (by simp)) fun b => ih (fun b a ha => hf b a (by simp [ha])) b

/-- Rebuilding a kind keeps what the changes for its parts keep. -/
theorem traverse {τ σ : Type} {text : τ → Edit σ} {one : Property → α → Edit β}
    {many : Property → List α → Edit (List β)} {kind : NodeKind τ α}
    (htext : ∀ t, Keeps P (text t)) (hone : ∀ p, ∀ c ∈ kind.occupants, Keeps P (one p c))
    (hmany : ∀ p cs, (∀ c ∈ cs, c ∈ kind.occupants) → Keeps P (many p cs)) :
    Keeps P (kind.traverse text one many) := by
  cases kind <;> simp only [NodeKind.traverse]
  all_goals
    repeat first
      | exact pure _
      | exact bind (htext _) fun _ => pure _
      | refine bind (hone _ _ (by simp [NodeKind.occupants, NodeKind.slots])) fun _ => ?_
      | refine bind (hmany _ _ (by simp +contextual [NodeKind.occupants, NodeKind.slots]))
          fun _ => ?_

end Keeps

/-! ## Rebuilding a kind -/

/-- One change after the other gives each element of a row its value. -/
def Yields (f : α → Edit β) (value : α → β) (as : List α) (arena arena' : Arena) : Prop :=
  (as.mapM f).run arena = .ok (as.map value) arena'

theorem yields_nil {f : α → Edit β} {value : α → β} :
    Yields f value [] arena arena' ↔ arena = arena' := by
  simp [Yields]

/-- The first change yields its value, and the others yield theirs from the arena it leaves. -/
theorem yields_cons {f : α → Edit β} {value : α → β} {a : α} {as : List α} :
    Yields f value (a :: as) arena arena' ↔
      ∃ middle, (f a).run arena = .ok (value a) middle ∧ Yields f value as middle arena' := by
  simp only [Yields, List.mapM_cons, run_bind_eq_ok, List.map_cons, run_return,
    EStateM.Result.ok.injEq, List.cons.injEq]
  constructor
  · rintro ⟨b, middle, hb, bs, last, hbs, ⟨rfl, rfl⟩, rfl⟩
    exact ⟨middle, hb, hbs⟩
  · rintro ⟨middle, hb, hbs⟩
    exact ⟨_, middle, hb, _, _, hbs, ⟨rfl, rfl⟩, rfl⟩

private theorem yields_append {f : α → Edit β} {value : α → β} {as bs : List α} :
    Yields f value (as ++ bs) arena arena' ↔
      ∃ middle, Yields f value as arena middle ∧ Yields f value bs middle arena' := by
  induction as generalizing arena with
  | nil => simp [yields_nil]
  | cons a as ih =>
    simp only [List.cons_append, yields_cons, ih]
    constructor
    · rintro ⟨m, ha, k, has, hbs⟩
      exact ⟨k, ⟨m, ha, has⟩, hbs⟩
    · rintro ⟨k, ⟨m, ha, has⟩, hbs⟩
      exact ⟨m, ha, k, has, hbs⟩

/-- Changes that do nothing yield what they are given. -/
theorem yields_pure (as : List α) (arena : Arena) : Yields pure id as arena arena := by
  induction as with
  | nil => exact yields_nil.2 rfl
  | cons a as ih => exact yields_cons.2 ⟨arena, rfl, ih⟩

/-- A kind is rebuilt from the values of its texts and of its occupants. -/
theorem run_traverse {τ σ : Type} {text : τ → Edit σ} {f : α → Edit β} {spell : τ → σ}
    {value : α → β} {kind : NodeKind τ α} {middle : Arena}
    (ht : Yields text spell kind.texts arena middle)
    (hf : Yields f value kind.occupants middle arena') :
    (kind.traverse text (fun _ => f) (fun _ as => as.mapM f)).run arena =
      .ok (kind.map spell value) arena' := by
  have hrun {as : List α} {start stop : Arena} (h : Yields f value as start stop) :
      (as.mapM f).run start = .ok (as.map value) stop := h
  cases kind <;> simp only [NodeKind.texts, NodeKind.occupants, NodeKind.slots, List.flatMap_cons,
    List.flatMap_nil, List.append_nil, List.nil_append, List.cons_append, yields_nil, yields_cons,
    yields_append] at ht hf
  -- the changes come in the order of the slots, whatever the kind
  all_goals
    simp only [NodeKind.traverse]
    repeat
      obtain ⟨_, hx, ht⟩ := ht
      rw [run_bind_ok hx]
    subst ht
    repeat
      obtain ⟨_, hx, hf⟩ := hf
      first
        | rw [run_bind_ok hx]
        | rw [run_bind_ok (hrun hx)]
    first
      | subst hf
      | rw [run_bind_ok (hrun hf)]
    rfl

/-- Rebuilding a kind changes what going through its texts and its occupants changes. -/
theorem discard_traverse {τ σ : Type} (text : τ → Edit σ) (f : α → Edit β) (kind : NodeKind τ α) :
    (do let _ ← kind.traverse text (fun _ => f) (fun _ as => as.mapM f); pure ()) =
      (do let _ ← kind.texts.mapM text; let _ ← kind.occupants.mapM f; pure () : Edit Unit) := by
  cases kind <;> simp [NodeKind.traverse, NodeKind.texts, NodeKind.occupants, NodeKind.slots]

/-! ## Outcomes while handles last -/

/-- A change that never gives up a node, whether or not it is refused. -/
def Grows (edit : Edit α) : Prop :=
  ∀ size, Keeps (fun arena => size ≤ arena.size) edit

/-- As long as every node has a handle of its own, a change gives what satisfies `Q`, or is refused
for a reason that satisfies `E`. -/
def Ends (edit : Edit α) (arena : Arena) (Q : α → Arena → Prop) (E : Violation → Prop) : Prop :=
  match edit.run arena with
  | .ok value arena' => arena'.size ≤ NodeId.maxIndex → Q value arena'
  | .error violation arena' => arena'.size ≤ NodeId.maxIndex → E violation

namespace Ends

variable {Q Q' : α → Arena → Prop} {R : β → Arena → Prop} {E E' : Violation → Prop}

/-- A change that succeeds ends as its result says, which may count on the size it leaves. -/
theorem of_ok {edit : Edit α} {value : α} (h : edit.run arena = .ok value arena')
    (hq : arena'.size ≤ NodeId.maxIndex → Q value arena') : Ends edit arena Q E := by
  rw [Ends, h]
  exact hq

/-- A change that fails ends as its violation says. -/
theorem of_error {edit : Edit α} {violation : Violation}
    (h : edit.run arena = .error violation arena') (he : E violation) : Ends edit arena Q E := by
  rw [Ends, h]
  exact fun _ => he

/-- What is known of an ending may be weakened. -/
theorem imp {edit : Edit α} (h : Ends edit arena Q E) (hq : ∀ a arena', Q a arena' → Q' a arena')
    (he : ∀ v, E v → E' v) : Ends edit arena Q' E' := by
  rw [Ends] at h ⊢
  cases hr : edit.run arena with
  | ok a arena' =>
    rw [hr] at h
    exact fun hs => hq a arena' (h hs)
  | error v arena' =>
    rw [hr] at h
    exact fun hs => he v (h hs)

/-- A change that is refused for no reason comes to its end. -/
theorem exists_ok {edit : Edit α} (h : Ends edit arena Q fun _ => False)
    (hs : (edit.after arena).size ≤ NodeId.maxIndex) :
    ∃ a arena', edit.run arena = .ok a arena' ∧ Q a arena' := by
  rw [Ends] at h
  rw [after] at hs
  cases hr : edit.run arena with
  | ok a arena' =>
    rw [hr] at h hs
    exact ⟨a, arena', rfl, h hs⟩
  | error v arena' =>
    rw [hr] at h hs
    exact (h hs).elim

/-- What a change gives may be related to the arena that it leaves. -/
theorem with_after {edit : Edit α} (h : Ends edit arena Q E) :
    Ends edit arena (fun a arena' => arena' = edit.after arena ∧ Q a arena') E := by
  rw [Ends, after] at *
  cases hr : edit.run arena with
  | ok a arena' =>
    rw [hr] at h
    exact fun hs => ⟨rfl, h hs⟩
  | error v arena' =>
    rw [hr] at h
    exact h

theorem pure {a : α} (h : Q a arena) : Ends (Pure.pure a : Edit α) arena Q E :=
  of_ok (run_return a arena) fun _ => h

/-- The second of two changes may rely on what the first one has led to. -/
theorem bind {x : Edit α} {f : α → Edit β} (hx : Ends x arena Q E)
    (hf : ∀ a middle, Q a middle → Ends (f a) middle R E) (hg : ∀ a, Grows (f a)) :
    Ends (x >>= f) arena R E := by
  rw [Ends] at hx ⊢
  cases hr : x.run arena with
  | error v middle =>
    rw [run_bind_error hr]
    rwa [hr] at hx
  | ok a middle =>
    rw [run_bind_ok hr]
    rw [hr] at hx
    by_cases hs : middle.size ≤ NodeId.maxIndex
    · exact hf a middle (hx hs)
    · have hgrow := hg a middle.size middle (Nat.le_refl _)
      rw [after] at hgrow
      cases hf' : (f a).run middle with
      | ok b last =>
        rw [hf'] at hgrow
        exact fun hs' => absurd (Nat.le_trans hgrow hs') hs
      | error v last =>
        rw [hf'] at hgrow
        exact fun hs' => absurd (Nat.le_trans hgrow hs') hs

/-- What reads the arena first is followed from the arena it starts from. -/
theorem read_bind {f : Arena → Edit β} (h : Ends (f arena) arena R E) :
    Ends (get >>= f) arena R E := by
  rwa [Ends, run_read_bind]

/-- A check that is known to pass may be left out. -/
theorem ofExcept_bind {check : Except Violation α} {f : α → Edit β} {a : α} (hc : check = .ok a)
    (h : Ends (f a) arena R E) : Ends (ofExcept check >>= f) arena R E := by
  rwa [Ends, hc, run_bind_ok (run_ofExcept_ok a arena)]

/-- A kind is rebuilt by going through its texts and then through its occupants. -/
theorem traverse {τ σ : Type} {text : τ → Edit σ} {spell : τ → σ} {f : α → Edit β}
    {kind : NodeKind τ α} {middle : Arena} {R : (α → β) → Arena → Prop}
    (ht : Yields text spell kind.texts arena middle)
    (h : Ends (kind.occupants.mapM f) middle
      (fun bs arena' => ∃ value, bs = kind.occupants.map value ∧ R value arena') E) :
    Ends (kind.traverse text (fun _ => f) (fun _ as => as.mapM f)) arena
      (fun kind' arena' => ∃ value, kind' = kind.map spell value ∧ R value arena') E := by
  have hdiscard := congrArg (fun edit : Edit Unit => edit.run arena) (discard_traverse text f kind)
  simp only [run_bind_ok ht] at hdiscard
  rw [Ends] at h ⊢
  cases hm : (kind.occupants.mapM f).run middle with
  | error v last =>
    rw [hm] at h
    rw [run_bind_error hm] at hdiscard
    cases hk : (kind.traverse text (fun _ => f) (fun _ as => as.mapM f)).run arena with
    | error w last' =>
      rw [run_bind_error hk] at hdiscard
      cases hdiscard
      exact h
    | ok kind' last' =>
      rw [run_bind_ok hk] at hdiscard
      cases hdiscard
  | ok bs last =>
    rw [hm] at h
    rw [run_bind_ok hm] at hdiscard
    cases hk : (kind.traverse text (fun _ => f) (fun _ as => as.mapM f)).run arena with
    | error w last' =>
      rw [run_bind_error hk] at hdiscard
      cases hdiscard
    | ok kind' last' =>
      rw [run_bind_ok hk] at hdiscard
      cases hdiscard
      intro hs
      obtain ⟨value, rfl, hr⟩ := h hs
      rw [run_traverse ht hm] at hk
      cases hk
      exact ⟨value, rfl, hr⟩

end Ends

end Edit

end JavaFold
