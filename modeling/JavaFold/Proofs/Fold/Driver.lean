import JavaFold.Proofs.Fold.Rule

/-!
# Runs of the driver

Rules are arbitrary here: nothing is assumed of what a rule does to the arena or of the number it
gives. A run of the driver is described by its calls. Each call sees the arena that the one before
has left and the node that is in the place of the one that call was given (`Rule.Chain`); a round is
one call of every rule. The driver gives a report exactly if a round of idle calls comes in time,
and an error exactly if the rounds are used up or a call breaks off.
-/

namespace JavaFold

variable {arena arena' before after : Arena} {root next id : NodeId}

/-! ## Places -/

/-- What an arena holds in the place that a node has in an earlier arena: the root, if the node was
the root there, or else what the node's parent holds at the node's location. -/
inductive Arena.Held (before after : Arena) (id : NodeId) : Except Violation NodeId → Prop where
  /-- The place is that of the root. -/
  | root (h : id = before.root) : Held before after id (.ok after.root)
  /-- The place is a slot, which may be gone. -/
  | slot (h : id ≠ before.root) {parent : NodeId} {location : Location}
    (hp : before.parent? id = some parent) (hl : before.location? id = some location) :
    Held before after id (after.resolve parent location)

namespace Anchor

open Arena

private theorem ofNode_eq_error {violation : Violation} :
    ofNode arena id = .error violation ↔ arena.checkFoldRoot id = .error violation := by
  rw [ofNode, checkFoldRoot]
  cases arena.locationOf id with
  | error other => simp [bind, Except.bind]
  | ok location => cases location <;> cases arena.parent? id <;> exact ⟨nofun, nofun⟩

/-- A node that folding can start from has a place. -/
theorem ofNode_cases (h : arena.checkFoldRoot id = .ok ()) :
    id = arena.root ∧ ofNode arena id = .ok .root ∨
    id ≠ arena.root ∧ ∃ parent location, arena.parent? id = some parent ∧
      arena.location? id = some location ∧ ofNode arena id = .ok (.slot parent location) := by
  rw [checkFoldRoot] at h
  cases hlocation : arena.locationOf id with
  | error violation =>
    rw [hlocation] at h
    cases h
  | ok location =>
    obtain ⟨node, hn, ⟨hr, hnone⟩ | ⟨hr, hp, hloc, hsome⟩⟩ := locationOf_eq_ok.1 hlocation
    · subst hnone
      refine .inl ⟨hr, ?_⟩
      rw [ofNode, hlocation]
      rfl
    · obtain ⟨location, rfl⟩ := Option.ne_none_iff_exists'.1 hsome
      have hparent : arena.parent? id = some node.parent := parent?_eq_some.2 ⟨node, hn, rfl, hp⟩
      refine .inr ⟨hr, node.parent, location, hparent, ?_, ?_⟩
      · rw [location?, hn, Option.bind_some, hloc]
      · rw [ofNode, hlocation, hparent]
        rfl

/-- Looking a place up gives what is held there. -/
theorem resolve_iff_held {anchor : Anchor} (h : ofNode before id = .ok anchor) (after : Arena)
    (result : Except Violation NodeId) :
    anchor.resolve after = result ↔ before.Held after id result := by
  have hcheck : before.checkFoldRoot id = .ok () := by
    cases hc : before.checkFoldRoot id with
    | ok _ => rfl
    | error violation =>
      rw [ofNode_eq_error.2 hc] at h
      cases h
  rcases ofNode_cases hcheck with ⟨hr, hroot⟩ | ⟨hr, parent, location, hp, hl, hslot⟩
  · cases h.symm.trans hroot
    constructor
    · rintro rfl
      exact .root hr
    · rintro (_ | ⟨hr', -, -⟩)
      · rfl
      · exact absurd hr hr'
  · cases h.symm.trans hslot
    constructor
    · rintro rfl
      exact .slot hr hp hl
    · rintro (hr' | ⟨-, hp', hl'⟩)
      · exact absurd hr' hr
      · cases Option.some.inj (hp.symm.trans hp')
        cases Option.some.inj (hl.symm.trans hl')
        rfl

end Anchor

namespace Rule

variable {rule : Rule} {rules rest : List Rule} {error : FoldError} {count : Nat}

/-! ## Calls -/

/-- A call of a rule that came to an end. -/
structure Call where
  /-- The rule. -/
  rule : Rule
  /-- The arena that the rule was given. -/
  before : Arena
  /-- The node that the rule was given. -/
  root : NodeId
  /-- The number that the rule gave back. -/
  count : Nat
  /-- The arena that the rule left. -/
  after : Arena

/-- The node for the next call: the same one after a call without rewrites, or else the one now in
the same place. -/
def Call.Next (call : Call) (next : NodeId) : Prop :=
  call.count = 0 ∧ next = call.root ∨
    0 < call.count ∧ call.before.Held call.after call.root (.ok next)

/-- Calls one after the other, with the arena and the node they start from and lead to. -/
inductive Chain : Arena → NodeId → List Call → Arena → NodeId → Prop where
  /-- No call. -/
  | done (arena : Arena) (root : NodeId) : Chain arena root [] arena root
  /-- One more call in front. -/
  | call {call : Call} {next : NodeId} {calls : List Call} {arena' : Arena} {root' : NodeId}
    (located : call.before.checkFoldRoot call.root = .ok ())
    (ran : (call.rule.rewrite call.root).run call.before = .ok call.count call.after)
    (hnext : call.Next next) (rest : Chain call.after next calls arena' root') :
    Chain call.before call.root (call :: calls) arena' root'

/-- One call is a chain from the root it was given to the root it leaves. -/
theorem Chain.single (call : Call) (located : call.before.checkFoldRoot call.root = .ok ())
    (ran : (call.rule.rewrite call.root).run call.before = .ok call.count call.after)
    (hnext : call.Next next) : Chain call.before call.root [call] call.after next :=
  .call located ran hnext (.done _ _)

private theorem credit_eq_ok {total count sum : Nat} :
    credit total count = .ok sum ↔ total + count ≤ maxCount ∧ sum = total + count := by
  rw [credit]
  split
  next h => exact ⟨nofun, fun hsum => absurd h (Nat.not_lt.2 hsum.1)⟩
  next h => exact ⟨fun hsum => ⟨Nat.not_lt.1 h, (Except.ok.inj hsum).symm⟩,
      fun hsum => hsum.2 ▸ rfl⟩

private theorem credit_eq_error {total count : Nat} {violation : Violation} :
    credit total count = .error violation ↔
      maxCount < total + count ∧ violation = .tooManyRewrites (total + count) := by
  rw [credit]
  split
  next h => exact ⟨fun hv => ⟨h, (Except.error.inj hv).symm⟩, fun hv => hv.2 ▸ rfl⟩
  next h => exact ⟨nofun, fun hv => absurd hv.1 h⟩

/-! ### Calls without an end -/

/-- The node that a rule would be given, or has rewritten, is not to be found. -/
inductive Loses (rule : Rule) (total : Nat) (arena : Arena) (root : NodeId) :
    Violation → Arena → Prop where
  /-- The node is neither the root nor attached, so the rule is not called. -/
  | before {violation : Violation} (h : arena.checkFoldRoot root = .error violation) :
    Loses rule total arena root violation arena
  /-- The rule made rewrites, which can be counted, and the place of the node is gone. -/
  | after {violation : Violation} {count : Nat} {arena' : Arena}
    (located : arena.checkFoldRoot root = .ok ())
    (ran : (rule.rewrite root).run arena = .ok count arena') (hcount : 0 < count)
    (counted : total + count ≤ maxCount) (h : arena.Held arena' root (.error violation)) :
    Loses rule total arena root violation arena'

/-- A call that comes to no end, after the rule has made `total` rewrites: the rule fails, it makes
more rewrites than can be counted, or the node it works on is lost. -/
inductive Breaks (rule : Rule) (total : Nat) (arena : Arena) (root : NodeId) :
    FoldError → Arena → Prop where
  /-- The error of the rule. -/
  | failed {error : FoldError} {arena' : Arena} (located : arena.checkFoldRoot root = .ok ())
    (h : (rule.rewrite root).run arena = .error error arena') :
    Breaks rule total arena root error arena'
  /-- There are too many rewrites, and the program stops. -/
  | stopped {count : Nat} {arena' : Arena} (located : arena.checkFoldRoot root = .ok ())
    (ran : (rule.rewrite root).run arena = .ok count arena') (hcount : 0 < count)
    (h : maxCount < total + count) :
    Breaks rule total arena root (.invariant (.tooManyRewrites (total + count))) arena'
  /-- The node is lost. -/
  | lost {violation : Violation} {arena' : Arena}
      (h : Loses rule total arena root violation arena') :
    Breaks rule total arena root (.invariant violation) arena'

variable {total : Nat} {totals : List Nat}

private theorem exists_ofNode (h : arena.checkFoldRoot root = .ok ()) :
    ∃ anchor, Anchor.ofNode arena root = .ok anchor := by
  cases hanchor : Anchor.ofNode arena root with
  | ok anchor => exact ⟨anchor, rfl⟩
  | error violation =>
    rw [Anchor.ofNode_eq_error, h] at hanchor
    cases hanchor

/-- What an application does after the node was found, as one equation. -/
theorem run_apply {anchor : Anchor} (h : Anchor.ofNode arena root = .ok anchor) :
    (rule.apply total root).run arena =
      match (rule.rewrite root).run arena with
      | .error error arena' => .error error arena'
      | .ok count arena' =>
        if 0 < count then
          match credit total count with
          | .error violation => .error (.invariant violation) arena'
          | .ok sum =>
            match anchor.resolve arena' with
            | .ok next => .ok (sum, true, next) arena'
            | .error violation => .error (.invariant violation) arena'
        else .ok (total, false, root) arena' := by
  rw [apply, Rewrite.run_read_bind, h]
  change (rule.rewrite root >>= _).run arena = _
  rw [EStateM.run_bind]
  cases (rule.rewrite root).run arena with
  | error error arena' => rfl
  | ok count arena' =>
    by_cases hc : 0 < count
    · simp only [if_pos hc]
      cases credit total count with
      | error violation => rfl
      | ok sum =>
        change (Rewrite.ofExcept (anchor.resolve arena') >>= fun next =>
          pure (sum, true, next) : Rewrite _).run arena' = _
        cases anchor.resolve arena' <;> rfl
    · simp only [if_neg hc]
      rfl

/-- An application leaves the arena that the rule leaves. -/
theorem after_apply (h : arena.checkFoldRoot root = .ok ()) :
    (rule.apply total root).after arena = (rule.rewrite root).after arena := by
  obtain ⟨anchor, hanchor⟩ := exists_ofNode h
  rw [Rewrite.after, Rewrite.after, run_apply hanchor]
  cases (rule.rewrite root).run arena with
  | error error arena' => rfl
  | ok count arena' =>
    by_cases hc : 0 < count
    · simp only [if_pos hc]
      cases credit total count with
      | error violation => rfl
      | ok sum => cases anchor.resolve arena' <;> rfl
    · simp only [if_neg hc]

/-- A rule is applied if the root passes the check before it, the rule succeeds, its count fits onto
the total and it leaves an acceptable root. -/
private theorem apply_eq_ok {sum : Nat} {changed : Bool} (hw : total ≤ maxCount) :
    (rule.apply total root).run arena = .ok (sum, changed, next) arena' ↔
      arena.checkFoldRoot root = .ok () ∧ ∃ count, (rule.rewrite root).run arena =
          .ok count arena' ∧
        (⟨rule, arena, root, count, arena'⟩ : Call).Next next ∧ total + count ≤ maxCount ∧
        sum = total + count ∧ changed = decide (0 < count) := by
  cases hcheck : arena.checkFoldRoot root with
  | error violation =>
    rw [apply, Rewrite.run_read_bind, Anchor.ofNode_eq_error.2 hcheck]
    exact ⟨nofun, nofun⟩
  | ok _ =>
    obtain ⟨anchor, hanchor⟩ := exists_ofNode hcheck
    have hheld := Anchor.resolve_iff_held hanchor arena' (.ok next)
    rw [run_apply hanchor]
    cases hrun : (rule.rewrite root).run arena with
    | error error last => simp
    | ok count last =>
      simp only [EStateM.Result.ok.injEq, true_and]
      rcases Nat.eq_zero_or_pos count with rfl | hcount
      · simp only [Nat.lt_irrefl, if_false, EStateM.Result.ok.injEq, Prod.mk.injEq, Call.Next]
        constructor
        · rintro ⟨⟨rfl, rfl, rfl⟩, rfl⟩
          exact ⟨0, ⟨rfl, rfl⟩, .inl ⟨rfl, rfl⟩, hw, rfl, rfl⟩
        · rintro ⟨_, ⟨rfl, rfl⟩, ⟨-, rfl⟩ | ⟨hpos, -⟩, -, rfl, rfl⟩
          · exact ⟨⟨rfl, rfl, rfl⟩, rfl⟩
          · exact absurd hpos (Nat.lt_irrefl 0)
      · simp only [if_pos hcount]
        constructor
        · intro h
          cases hc : credit total count with
          | error violation =>
            rw [hc] at h
            cases h
          | ok s =>
            obtain ⟨hle, rfl⟩ := credit_eq_ok.1 hc
            cases hr : anchor.resolve last with
            | error violation => simp [hc, hr] at h
            | ok place =>
              simp only [hc, hr] at h
              cases h
              exact ⟨count, ⟨rfl, rfl⟩, .inr ⟨hcount, hheld.1 hr⟩, hle, rfl,
                (decide_eq_true hcount).symm⟩
        · rintro ⟨_, ⟨rfl, rfl⟩, ⟨hzero, -⟩ | ⟨-, hplace⟩, hle, rfl, rfl⟩
          · exact absurd hzero (Nat.ne_of_gt hcount)
          · simp only [credit_eq_ok.2 ⟨hle, rfl⟩, hheld.2 hplace, decide_eq_true hcount]

/-- A rule breaks off by an error of its own, by a count that does not fit, or by losing the root.
-/
private theorem apply_eq_error :
    (rule.apply total root).run arena = .error error arena' ↔
      rule.Breaks total arena root error arena' := by
  cases hcheck : arena.checkFoldRoot root with
  | error violation =>
    rw [apply, Rewrite.run_read_bind, Anchor.ofNode_eq_error.2 hcheck]
    constructor
    · intro h
      cases h
      exact .lost (.before hcheck)
    · rintro (⟨located, -⟩ | ⟨located, -⟩ | ⟨h | ⟨located, -⟩⟩)
      · cases hcheck.symm.trans located
      · cases hcheck.symm.trans located
      · cases hcheck.symm.trans h
        rfl
      · cases hcheck.symm.trans located
  | ok _ =>
    obtain ⟨anchor, hanchor⟩ := exists_ofNode hcheck
    have hheld := fun last v => Anchor.resolve_iff_held hanchor last (.error v)
    rw [run_apply hanchor]
    constructor
    · intro h
      cases hrun : (rule.rewrite root).run arena with
      | error error last =>
        rw [hrun] at h
        cases h
        exact .failed hcheck hrun
      | ok n last =>
        simp only [hrun] at h
        split at h
        next hn =>
          cases hc : credit total n with
          | error violation =>
            rw [hc] at h
            cases h
            obtain ⟨hmore, rfl⟩ := credit_eq_error.1 hc
            exact .stopped hcheck hrun hn hmore
          | ok sum =>
            rw [hc] at h
            cases hr : anchor.resolve last with
            | ok next => simp [hr] at h
            | error violation =>
              simp only [hr] at h
              cases h
              exact .lost (.after hcheck hrun hn (credit_eq_ok.1 hc).1 ((hheld _ _).1 hr))
        next => cases h
    · rintro (⟨-, hrun⟩ | ⟨-, hrun, hn, hmore⟩ | ⟨h | ⟨-, hrun, hn, hle, hh⟩⟩)
      · rw [hrun]
      · simp only [hrun, if_pos hn, credit_eq_error.2 ⟨hmore, rfl⟩]
      · cases hcheck.symm.trans h
      · simp only [hrun, if_pos hn, credit_eq_ok.2 ⟨hle, rfl⟩, (hheld _ _).2 hh]

/-! ## Totals -/

/-- The totals with the counts of a round added. -/
def sums (totals : List Nat) (calls : List Call) : List Nat :=
  List.zipWith (· + ·) totals (calls.map Call.count)

/-- The totals can be counted. -/
def Within (totals : List Nat) : Prop :=
  ∀ index, totals.getD index 0 ≤ maxCount

/-- The totals can be counted with the calls that were made of a round. -/
def Fits (totals : List Nat) (calls : List Call) : Prop :=
  ∀ index, totals.getD index 0 + (calls[index]?).elim 0 Call.count ≤ maxCount

/-- Totals are within the bound if the first is and the others are. -/
theorem within_cons : Within (total :: totals) ↔ total ≤ maxCount ∧ Within totals := by
  constructor
  · intro h
    exact ⟨h 0, fun index => h (index + 1)⟩
  · rintro ⟨hfirst, hrest⟩ (_ | index)
    · exact hfirst
    · exact hrest index

/-- Counts fit onto totals if the first fits onto the first and the others onto the others. -/
theorem fits_cons {call : Call} {calls : List Call} :
    Fits (total :: totals) (call :: calls) ↔ total + call.count ≤ maxCount ∧ Fits totals calls := by
  constructor
  · intro h
    exact ⟨h 0, fun index => h (index + 1)⟩
  · rintro ⟨hfirst, hrest⟩ (_ | index)
    · exact hfirst
    · exact hrest index

/-- The totals grow by the counts of a round. -/
theorem getD_sums {calls : List Call} (hlength : totals.length = calls.length) (index : Nat) :
    (sums totals calls).getD index 0 =
      totals.getD index 0 + (calls[index]?).elim 0 Call.count := by
  rcases Nat.lt_or_ge index calls.length with h | h <;>
    simp [sums, List.getD_eq_getElem?_getD, h, hlength]

private theorem within_sums {calls : List Call} (hlength : totals.length = calls.length) :
    Within (sums totals calls) ↔ Fits totals calls := by
  simp only [Within, Fits, getD_sums hlength]

/-! ## Rounds -/

/-- A round that comes to an end calls every rule once. -/
theorem round_eq_ok {sums' : List Nat} {changed : Bool} (hlength : totals.length = rules.length)
    (hw : Within totals) :
    (round (rules.zip totals) root).run arena = .ok (sums', changed, id) arena' ↔
      ∃ calls, calls.map Call.rule = rules ∧ Chain arena root calls arena' id ∧ Fits totals calls ∧
        sums' = sums totals calls ∧ changed = calls.any fun call => 0 < call.count := by
  induction rules generalizing arena arena' root id totals sums' changed with
  | nil =>
    obtain rfl := List.length_eq_zero_iff.1 hlength
    rw [List.zip_nil_left, round, Rewrite.run_return_eq_ok, Prod.mk.injEq, Prod.mk.injEq]
    constructor
    · rintro ⟨⟨rfl, rfl, rfl⟩, rfl⟩
      exact ⟨[], rfl, .done _ _, hw, rfl, rfl⟩
    · rintro ⟨calls, hrules, hchain, -, rfl, rfl⟩
      obtain rfl := List.map_eq_nil_iff.1 hrules
      cases hchain
      exact ⟨⟨rfl, rfl, rfl⟩, rfl⟩
  | cons rule rules ih =>
    obtain ⟨total, totals, rfl⟩ := List.exists_cons_of_length_eq_add_one hlength
    obtain ⟨htotal, hw⟩ := within_cons.1 hw
    simp only [List.zip_cons_cons, round, Rewrite.run_bind_eq_ok, Rewrite.run_return_eq_ok,
      Prod.exists, Prod.mk.injEq, apply_eq_ok htotal, ih (Nat.succ.inj hlength) hw]
    constructor
    · rintro ⟨_, _, next, middle, ⟨located, count, ran, hnext, hle, rfl, rfl⟩, _, _, _, _,
        ⟨calls, rfl, hchain, hfits, rfl, rfl⟩, ⟨rfl, rfl, rfl⟩, rfl⟩
      exact ⟨⟨rule, arena, root, count, middle⟩ :: calls, rfl, .call located ran hnext hchain,
        fits_cons.2 ⟨hle, hfits⟩, rfl, rfl⟩
    · rintro ⟨calls, hrules, hchain, hfits, rfl, rfl⟩
      obtain ⟨call, calls, rfl, rfl, rfl⟩ := List.map_eq_cons_iff.1 hrules
      obtain _ | ⟨located, ran, hnext, hrest⟩ := hchain
      obtain ⟨hle, hfits⟩ := fits_cons.1 hfits
      exact ⟨_, _, _, call.after, ⟨located, call.count, ran, hnext, hle, rfl, rfl⟩, _, _, _, _,
        ⟨calls, rfl, hrest, hfits, rfl, rfl⟩, ⟨rfl, rfl, rfl⟩, rfl⟩

/-- A round that a call brings to no end, after the calls of the rules before. -/
def BreaksOff (rules : List Rule) (totals : List Nat) (arena : Arena) (root : NodeId)
    (error : FoldError) (arena' : Arena) : Prop :=
  ∃ calls rule rest middle next, calls.map Call.rule ++ rule :: rest = rules ∧
    Chain arena root calls middle next ∧ Fits totals calls ∧
    rule.Breaks (totals.getD calls.length 0) middle next error arena'

/-- A round breaks off at the first rule that does, behind calls that went through. -/
private theorem round_eq_error (hlength : totals.length = rules.length) (hw : Within totals) :
    (round (rules.zip totals) root).run arena = .error error arena' ↔
      BreaksOff rules totals arena root error arena' := by
  induction rules generalizing arena root totals with
  | nil =>
    constructor
    · exact fun h => absurd h Rewrite.run_return_ne_error
    · rintro ⟨calls, rule, rest, _, _, hrules, -⟩
      simp at hrules
  | cons rule rules ih =>
    obtain ⟨total, totals, rfl⟩ := List.exists_cons_of_length_eq_add_one hlength
    have hwithin := hw
    obtain ⟨htotal, hw⟩ := within_cons.1 hw
    simp only [List.zip_cons_cons, round, Rewrite.run_bind_eq_error, Rewrite.run_return_ne_error,
      Prod.exists, apply_eq_ok htotal, apply_eq_error, ih (Nat.succ.inj hlength) hw, and_false,
      exists_false, or_false]
    constructor
    · rintro (h | ⟨_, _, next, middle, ⟨located, count, ran, hnext, hle, -, -⟩, calls, broken, rest,
        last, at', rfl, hchain, hfits, h⟩)
      · exact ⟨[], rule, rules, arena, root, rfl, .done _ _, hwithin, h⟩
      · exact ⟨⟨rule, arena, root, count, middle⟩ :: calls, broken, rest, last, at', rfl,
          .call located ran hnext hchain, fits_cons.2 ⟨hle, hfits⟩, h⟩
    · rintro ⟨calls, broken, rest, last, at', hrules, hchain, hfits, h⟩
      cases hchain with
      | done =>
        cases hrules
        exact .inl h
      | @call call next calls _ _ located ran hnext hchain =>
        cases hrules
        obtain ⟨hle, hfits⟩ := fits_cons.1 hfits
        exact .inr ⟨_, _, next, call.after, ⟨located, call.count, ran, hnext, hle, rfl, rfl⟩, calls,
          broken, rest, last, at', rfl, hchain, hfits, h⟩

/-- A round in which every rule was called and some rule made a rewrite. -/
def Busy (rules : List Rule) (round : List Call) : Prop :=
  round.map Call.rule = rules ∧ ∃ call ∈ round, 0 < call.count

/-- A round in which every rule was called and none made a rewrite. -/
def Idle (rules : List Rule) (round : List Call) : Prop :=
  round.map Call.rule = rules ∧ ∀ call ∈ round, call.count = 0

private theorem length_of_map_rule {calls : List Call} (h : calls.map Call.rule = rules)
    (hlength : totals.length = rules.length) : totals.length = calls.length := by
  rw [hlength, ← h, List.length_map]

private theorem length_sums {calls : List Call} (h : calls.map Call.rule = rules)
    (hlength : totals.length = rules.length) : (sums totals calls).length = rules.length := by
  rw [sums, List.length_zipWith, List.length_map, ← length_of_map_rule h hlength, Nat.min_self,
    hlength]

/-- Busy rounds, with the arena and the node they start from and lead to. -/
structure Rounds (rules : List Rule) (arena : Arena) (root : NodeId) (rounds : List (List Call))
    (arena' : Arena) (root' : NodeId) : Prop where
  /-- Some rule makes a rewrite in every round. -/
  busy : ∀ round ∈ rounds, Busy rules round
  /-- The calls follow each other, from one round to the next as within a round. -/
  chained : Chain arena root rounds.flatten arena' root'

/-- No rounds lead nowhere. -/
theorem Rounds.nil : Rounds rules arena root [] arena root :=
  ⟨by simp, .done _ _⟩

private theorem sums_of_idle {calls : List Call} (h : Idle rules calls)
    (hlength : totals.length = rules.length) : sums totals calls = totals := by
  have hcalls := length_of_map_rule h.1 hlength
  refine List.ext_getElem (by rw [length_sums h.1 hlength, hlength]) fun index hi hi' => ?_
  have hzero := h.2 calls[index] (List.getElem_mem (hcalls ▸ hi'))
  simp [sums, hzero]

/-! ## The loop -/

section Loop

variable {left earlier : Nat} {calls : List Call} {report : Report}

/-- A round in which no rule finds anything is the last one. -/
theorem run_roundsFrom_idle (hlength : totals.length = rules.length) (hw : Within totals)
    (hidle : Idle rules calls) (hchain : Chain arena root calls arena' next) :
    (roundsFrom rules (left + 1) earlier totals root).run arena =
      .ok ⟨next, earlier + 1, (rules.map Rule.name).zip totals⟩ arena' := by
  have hsame := sums_of_idle hidle hlength
  have hfits : Fits totals calls := by
    rw [← within_sums (length_of_map_rule hidle.1 hlength), hsame]
    exact hw
  have hquiet : (calls.any fun call => 0 < call.count) = false := by
    simpa using hidle.2
  rw [roundsFrom, EStateM.run_bind,
    (round_eq_ok hlength hw).2 ⟨calls, hidle.1, hchain, hfits, rfl, rfl⟩, hsame]
  simp only [hquiet, Bool.false_eq_true, if_false]
  rfl

/-- A round in which a rule finds something is counted, its counts are added to the totals, and the
rounds go on from the root it leaves. -/
theorem run_roundsFrom_busy (hlength : totals.length = rules.length) (hw : Within totals)
    (hbusy : Busy rules calls) (hchain : Chain arena root calls arena' next)
    (hfits : Fits totals calls) :
    (roundsFrom rules (left + 1) earlier totals root).run arena =
      (roundsFrom rules left (earlier + 1) (sums totals calls) next).run arena' := by
  have hchanged : (calls.any fun call => 0 < call.count) = true := by
    simpa using hbusy.2
  rw [roundsFrom, EStateM.run_bind,
    (round_eq_ok hlength hw).2 ⟨calls, hbusy.1, hchain, hfits, rfl, rfl⟩]
  simp only [hchanged, if_true]

/-- A round that breaks off ends the run with its error and leaves the arena as it is then. -/
theorem run_roundsFrom_breaksOff (hlength : totals.length = rules.length) (hw : Within totals)
    (h : BreaksOff rules totals arena root error arena') :
    (roundsFrom rules (left + 1) earlier totals root).run arena = .error error arena' := by
  rw [roundsFrom, EStateM.run_bind, (round_eq_error hlength hw).2 h]

end Loop

/-- A run whose root passes the check starts its rounds with all totals zero. -/
theorem run_toFixedPoint {maxRounds : Nat} (h : arena.checkFoldRoot root = .ok ()) :
    (toFixedPoint rules maxRounds root).run arena =
      (roundsFrom rules maxRounds 0 (rules.map fun _ => 0) root).run arena := by
  rw [toFixedPoint, Rewrite.run_read_bind, h]
  rfl

/-- If no rule gives nodes up, the driver leaves at least the nodes that its first call leaves. -/
theorem size_le_after_toFixedPoint {maxRounds : Nat}
    (hgrows : ∀ r ∈ rule :: rules, ∀ root, Rewrite.Grows (r.rewrite root))
    (h : arena.checkFoldRoot root = .ok ()) :
    ((rule.rewrite root).after arena).size ≤
      ((toFixedPoint (rule :: rules) (maxRounds + 1) root).after arena).size := by
  have hkeeps (size : Nat) := fun r hr root => hgrows r hr root size
  have hrest (size : Nat) : ∀ entry ∈ rules.zip (rules.map fun _ => 0), ∀ root,
      Rewrite.Keeps (fun arena => size ≤ arena.size) (entry.1.rewrite root) := fun entry hentry =>
    (List.forall_mem_cons.1 (hkeeps size)).2 entry.1 (List.of_mem_zip hentry).1
  calc ((rule.rewrite root).after arena).size
      = ((rule.apply 0 root).after arena).size := by rw [after_apply h]
    _ ≤ ((round ((rule, 0) :: rules.zip (rules.map fun _ => 0)) root).after arena).size := by
        refine Rewrite.size_le_after_bind (fun result size => ?_) arena
        exact .bind (keeps_round (hrest size) _) fun _ => .pure _
    _ ≤ ((roundsFrom (rule :: rules) (maxRounds + 1) 0 (0 :: rules.map fun _ => 0) root).after
          arena).size := by
        refine Rewrite.size_le_after_bind (fun result size => ?_) arena
        dsimp only
        split
        · exact keeps_roundsFrom (hkeeps size) _ _ _ _
        · exact .pure _
    _ = ((toFixedPoint (rule :: rules) (maxRounds + 1) root).after arena).size := by
        rw [Rewrite.after, Rewrite.after, run_toFixedPoint h]
        rfl

/-! ### From the first round -/

section Start

variable {rounds : List (List Call)}

end Start

section Run

variable {maxRounds : Nat} {report : Report} (h : arena.checkFoldRoot root = .ok ())

include h

end Run

end Rule

end JavaFold
