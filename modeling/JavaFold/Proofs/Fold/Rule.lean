import JavaFold.Fold.FixedPoint
import JavaFold.Proofs.Arena.Reachable

/-!
# Rewritings one after the other

A rewriting is taken apart into its steps, as a change of an arena is. What every rule keeps of an
arena, whether or not it fails, the driver keeps.
-/

namespace JavaFold

namespace Rewrite

variable {α β : Type} {arena arena' : Arena} {x : Rewrite α} {f : α → Rewrite β}
  {error : FoldError}

/-- A rewriting in two steps succeeds if and only if both do, the second on the arena that the first
leaves. -/
theorem run_bind_eq_ok {b : β} :
    (x >>= f).run arena = .ok b arena' ↔
      ∃ a middle, x.run arena = .ok a middle ∧ (f a).run middle = .ok b arena' := by
  rw [EStateM.run_bind]
  cases x.run arena <;> simp

/-- A rewriting in two steps fails in the first step, or in the second after the first succeeded. -/
theorem run_bind_eq_error :
    (x >>= f).run arena = .error error arena' ↔ x.run arena = .error error arena' ∨
      ∃ a middle, x.run arena = .ok a middle ∧ (f a).run middle = .error error arena' := by
  rw [EStateM.run_bind]
  cases x.run arena <;> simp

/-- A value that is given back leaves the arena as it is. -/
@[simp] theorem run_return_eq_ok {a b : α} :
    (pure a : Rewrite α).run arena = .ok b arena' ↔ a = b ∧ arena = arena' := by
  rw [show (pure a : Rewrite α).run arena = .ok a arena from rfl, EStateM.Result.ok.injEq]

@[simp] theorem run_return_ne_error {a : α} :
    (pure a : Rewrite α).run arena ≠ .error error arena' := nofun

/-- What reads the arena first goes on with the arena it starts from. -/
theorem run_read_bind (f : Arena → Rewrite β) (arena : Arena) :
    (get >>= f : Rewrite β).run arena = (f arena).run arena := rfl

/-- The arena that a rewriting leaves, whether or not it fails in the end. -/
def after (x : Rewrite α) (arena : Arena) : Arena :=
  match x.run arena with
  | .ok _ arena => arena
  | .error _ arena => arena

/-- What a rewriting in two steps leaves is what the second leaves, or the first if it fails. -/
theorem after_bind (x : Rewrite α) (f : α → Rewrite β) (arena : Arena) :
    (x >>= f).after arena = match x.run arena with
      | .ok a middle => (f a).after middle
      | .error _ middle => middle := by
  simp only [after, EStateM.run_bind]
  cases x.run arena <;> rfl

/-- A change taken into a rewriting leaves the same arena; only its error is wrapped. -/
theorem after_ofEdit (edit : Edit α) (arena : Arena) :
    (ofEdit edit).after arena = edit.after arena := by
  rw [after, Edit.after, EStateM.run, ofEdit]
  cases edit.run arena <;> rfl

/-- A rewriting keeps a property of arenas, also when it fails midway. -/
def Keeps (P : Arena → Prop) (x : Rewrite α) : Prop :=
  ∀ arena, P arena → P (x.after arena)

namespace Keeps

variable {P : Arena → Prop}

/-- Giving a value back keeps everything. -/
theorem pure (a : α) : Keeps P (Pure.pure a : Rewrite α) :=
  fun _ h => h

/-- An error that is thrown leaves the arena as it is, and so keeps everything. -/
theorem throw (error : FoldError) : Keeps P (MonadExcept.throw error : Rewrite α) :=
  fun _ h => h

/-- Reading the arena keeps everything. -/
theorem read : Keeps P (get : Rewrite Arena) :=
  fun _ h => h

/-- A check writes nothing, whatever it finds. -/
theorem ofExcept (check : Except Violation α) : Keeps P (Rewrite.ofExcept check) := by
  intro arena h
  cases check <;> exact h

/-- A property is kept in two steps, also where the second is never reached. -/
theorem bind (hx : Keeps P x) (hf : ∀ a, Keeps P (f a)) : Keeps P (x >>= f) := by
  intro arena h
  have hmiddle := hx arena h
  rw [after_bind]
  rw [after] at hmiddle
  cases hr : x.run arena with
  | ok a middle =>
    rw [hr] at hmiddle
    exact hf a middle hmiddle
  | error v middle =>
    rw [hr] at hmiddle
    exact hmiddle

end Keeps

/-- A rewriting that never gives up a node, whether or not it fails. -/
def Grows (x : Rewrite α) : Prop :=
  ∀ size, Keeps (fun arena => size ≤ arena.size) x

/-- Nodes that were there after the first step are there after the second. -/
theorem size_le_after_bind (hf : ∀ a, Grows (f a)) (arena : Arena) :
    (x.after arena).size ≤ ((x >>= f).after arena).size := by
  rw [after_bind, after]
  cases x.run arena with
  | ok a middle => exact hf a middle.size middle (Nat.le_refl _)
  | error error middle => exact Nat.le_refl _

end Rewrite

namespace Rule

/-! ## What every rule keeps -/

open Rewrite

variable {P : Arena → Prop} {rule : Rule} {rules : List Rule} {root : NodeId}

private theorem keeps_apply (h : Keeps P (rule.rewrite root)) (total : Nat) :
    Keeps P (rule.apply total root) := by
  refine .bind .read fun arena => .bind (.ofExcept _) fun anchor => .bind h fun count => ?_
  split
  · exact .bind (.ofExcept _) fun total => .bind .read fun arena => .bind (.ofExcept _) fun next =>
      .pure _
  · exact .pure _

/-- A round keeps what every rule of it keeps, from whatever root the rule before leaves. -/
theorem keeps_round {entries : List (Rule × Nat)}
    (h : ∀ entry ∈ entries, ∀ root, Keeps P (entry.1.rewrite root)) (root : NodeId) :
    Keeps P (round entries root) := by
  induction entries generalizing root with
  | nil => exact .pure _
  | cons entry entries ih =>
    obtain ⟨hrule, hrules⟩ := List.forall_mem_cons.1 h
    exact .bind (keeps_apply (hrule root) _) fun result =>
      .bind (ih hrules result.2.2) fun more => .pure _

/-- The rounds keep what every rule keeps, by induction on how many are left. -/
theorem keeps_roundsFrom (h : ∀ rule ∈ rules, ∀ root, Keeps P (rule.rewrite root))
    (left earlier : Nat) (totals : List Nat) (root : NodeId) :
    Keeps P (roundsFrom rules left earlier totals root) := by
  induction left generalizing earlier totals root with
  | zero => exact .throw _
  | succ left ih =>
    refine .bind (keeps_round (fun entry hentry => ?_) root) fun result => ?_
    · exact h entry.1 (List.of_mem_zip hentry).1
    · dsimp only
      split
      · exact ih _ _ _
      · exact .pure _

/-- The driver keeps what every rule keeps. -/
theorem keeps_toFixedPoint (h : ∀ rule ∈ rules, ∀ root, Keeps P (rule.rewrite root))
    (maxRounds : Nat) (root : NodeId) : Keeps P (toFixedPoint rules maxRounds root) :=
  .bind .read fun _ => .bind (.ofExcept _) fun _ => keeps_roundsFrom h _ _ _ _

end Rule

end JavaFold
