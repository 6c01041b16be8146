import JavaFold.Arena.Source
import JavaFold.Proofs.Arena.Plant
import JavaFold.Proofs.Grammar.Lift
import JavaFold.Proofs.Grammar.Words

/-!
# Reading into an arena against reading trees

A production over an arena allocates a node when it comes to the end of it, in the midst of what it
still has to read. Over trees the same production only puts a tree together. That the nodes of a
tree may as well be allocated when the whole tree is there is shown production by production
(`Follows`): what was read so far and waits for its place in a node is a `Stock` of changes that
were made to the arena, and a node takes the whole stock in, in the order in which it was read.

A change is refused only when there are too many nodes (`Secure`), so a production over an arena is
refused where the one over trees is, or for want of handles.
-/

namespace JavaFold

open Edit

variable {α β γ δ ε : Type}

/-! ## Changes that are refused only for want of handles -/

/-- An arena was made by allocation alone, unless there are more nodes in it than handles. -/
def Arena.Fair (arena : Arena) : Prop :=
  arena.size ≤ NodeId.maxIndex → arena.Built

/-- A change keeps an arena fair, and is refused only when there are more nodes than handles. -/
def Edit.Secure (edit : Edit α) : Prop :=
  ∀ arena : Arena, arena.Fair → match edit.run arena with
    | .ok _ arena' => arena'.Fair
    | .error _ arena' => NodeId.maxIndex < arena'.size

namespace Edit

private theorem secure_pure (a : α) : Secure (pure a) := fun _ h => h

/-- Two changes that can be made can be made one after the other. -/
theorem Secure.bind {x : Edit α} {f : α → Edit β} (hx : Secure x) (hf : ∀ a, Secure (f a)) :
    Secure (x >>= f) := by
  intro arena h
  have hfirst := hx arena h
  rw [EStateM.run_bind]
  cases hr : x.run arena with
  | error violation middle =>
    rw [hr] at hfirst
    exact hfirst
  | ok a middle =>
    rw [hr] at hfirst
    exact hf a middle hfirst

/-- A change that can be made can be made whatever becomes of its value. -/
theorem Secure.map {x : Edit α} (hx : Secure x) (f : α → β) : Secure (f <$> x) := by
  rw [← bind_pure_comp]
  exact hx.bind fun _ => secure_pure _

/-- Changes that can be made can be made one after the other. -/
theorem Secure.mapM {f : α → Edit β} {as : List α} (hf : ∀ a ∈ as, Secure (f a)) :
    Secure (as.mapM f) := by
  induction as with
  | nil => exact secure_pure _
  | cons a as ih =>
    obtain ⟨hfirst, hrest⟩ := List.forall_mem_cons.1 hf
    rw [List.mapM_cons]
    exact hfirst.bind fun _ => (ih hrest).bind fun _ => secure_pure _

/-- The nodes of a tree without gaps can be allocated. -/
theorem secure_plant {tree : Tree Span} (ht : tree ≠ .absent → tree.Complete) :
    Secure (plant tree) := by
  intro arena h
  have hgrows := grows_plant tree arena.size arena (Nat.le_refl _)
  rw [after] at hgrows
  cases hr : (plant tree).run arena with
  | ok id arena' =>
    rw [hr] at hgrows
    intro hs
    have hends : Ends (plant tree) arena (fun id arena' => Arena.Planted arena arena' tree id)
        fun _ => False := ends_plant ht (h (Nat.le_trans hgrows hs))
    rw [Ends, hr] at hends
    exact (hends hs).grown.built
  | error violation arena' =>
    rw [hr] at hgrows
    by_contra hs
    have hs : arena'.size ≤ NodeId.maxIndex := Nat.not_lt.1 hs
    have hends : Ends (plant tree) arena (fun id arena' => Arena.Planted arena arena' tree id)
        fun _ => False := ends_plant ht (h (Nat.le_trans hgrows hs))
    rw [Ends, hr] at hends
    exact hends hs

end Edit

/-! ## What was read so far -/

/-- A change that was made to the arena while something was read, and that gives the handles that
still wait for their places. -/
structure Stock (α : Type) where
  /-- The change. -/
  edit : Edit α
  /-- It can be made. -/
  secure : edit.Secure

/-- What one reading gives over trees is found in an arena in a certain way. -/
structure Crop (α β : Type) where
  /-- Nothing is missing in what was read. -/
  Whole : α → Prop
  /-- Allocate the nodes of what was read. -/
  sow : α → Edit β
  /-- The nodes can be allocated. -/
  secure : ∀ {a}, Whole a → (sow a).Secure

namespace Stock

/-- Nothing was read. -/
def none : Stock Unit := ⟨pure (), secure_pure ()⟩

/-- One thing was read after others. -/
def and (stock : Stock α) (last : Stock β) : Stock (α × β) where
  edit := do
    let a ← stock.edit
    let b ← last.edit
    return (a, b)
  secure := stock.secure.bind fun _ => last.secure.bind fun _ => secure_pure _

/-- Make the changes while reading. -/
def run (stock : Stock α) : Parser Filling α :=
  Filling.edit stock.edit

end Stock

namespace Crop

/-- What was read is all that was read. -/
def stock (crop : Crop α β) {a : α} (h : crop.Whole a) : Stock β :=
  ⟨crop.sow a, crop.secure h⟩

/-- Data that is not in the arena. -/
def data : Crop α α := ⟨fun _ => True, pure, fun _ => secure_pure _⟩

/-- A tree. -/
abbrev tree : Crop SourceTree NodeId :=
  ⟨Tree.Complete, plant, fun h => secure_plant fun _ => h⟩

/-- A tree or nothing. -/
abbrev optional : Crop SourceTree NodeId :=
  ⟨fun tree => tree ≠ .absent → tree.Complete, plant, secure_plant⟩

/-- Trees one after the other. -/
abbrev row : Crop (List SourceTree) (List NodeId) :=
  ⟨fun trees => ∀ tree ∈ trees, tree.Complete, fun trees => trees.mapM plant,
    fun h => .mapM fun tree hm => secure_plant fun _ => h tree hm⟩

/-- Something that was read after what is in stock. -/
def after (crop : Crop α β) (stock : Stock γ) : Crop α (γ × β) where
  Whole := crop.Whole
  sow a := do
    let c ← stock.edit
    let b ← crop.sow a
    return (c, b)
  secure h := (stock.and (crop.stock h)).secure

/-- One turn of a loop: something in place of what there was before, or an end with what there was.
-/
def turn (crop : Crop α β) (last : α) : Crop (Option α) (Option β) where
  Whole next := crop.Whole (next.getD last)
  sow next := do
    let b ← crop.sow (next.getD last)
    return next.map fun _ => b
  secure h := (crop.secure h).bind fun _ => secure_pure _

end Crop

namespace Crop.Whole

/-- A tree fills a slot. -/
theorem slot {tree : SourceTree} (h : Crop.tree.Whole tree) (tag : Tag) (property : Property) :
    Tree.SlotComplete tag (property, .one tree) := .inl h

/-- A slot that may be left empty is filled by a tree or nothing. -/
theorem optionalSlot {tree : SourceTree} (h : Crop.optional.Whole tree) (tag : Tag)
    (property : Property) : Tree.SlotComplete tag (property, .one tree) ↔
      tree ≠ .absent ∨ tag.isOptional property = true := by
  by_cases ht : tree = .absent
  · subst ht
    exact ⟨fun hs => .inr (hs.elim (fun hc => nomatch hc.isPresent) And.right),
      fun ho => .inr ⟨rfl, ho.resolve_left fun hne => hne rfl⟩⟩
  · exact ⟨fun _ => .inl ht, fun _ => .inl (h ht)⟩

/-- Nothing is missing where nothing is. -/
theorem absent : Crop.optional.Whole .absent := fun h => absurd rfl h

/-- Trees fill a list. -/
theorem listSlot {trees : List SourceTree} (h : Crop.row.Whole trees) (tag : Tag)
    (property : Property) : Tree.SlotComplete tag (property, .many trees) := h

end Crop.Whole

/-! ## A production over an arena and over trees -/

/-- How a reading over an arena ends, given how the one over trees ends: in the same place with the
nodes of what was read allocated, or with the refusal of an allocation. Where the reading over trees
is refused, there may be too many nodes before that. -/
def Tracks (crop : Crop α β) (start : Arena) :
    EStateM.Result ParseError Cursor α → EStateM.Result ParseError Filling β → Prop
  | .ok a cursor, .ok b filling => crop.Whole a ∧
    (crop.sow a).run start = .ok b filling.arena ∧ filling.cursor = cursor
  | .ok a _, .error error filling => crop.Whole a ∧
    ∃ violation, error = .tree violation ∧ (crop.sow a).run start = .error violation filling.arena
  | .error _ _, .ok _ _ => False
  | .error error cursor, .error error' filling => error' = error ∧ filling.cursor = cursor ∨
    ∃ violation, error' = .tree violation ∧ NodeId.maxIndex < filling.arena.size

/-- Reading over an arena is reading over trees and allocating the nodes of what was read. -/
def Follows (p : Parser Cursor α) (q : Parser Filling β) (crop : Crop α β) : Prop :=
  ∀ cursor arena, arena.Fair → Tracks crop arena (p.run cursor) (q.run ⟨cursor, arena⟩)

variable {p : Parser Cursor α} {q : Parser Filling β} {crop : Crop α β} {stock : Stock γ}

namespace Filling

/-- A change made while reading leaves the cursor where it is, and its violation refuses the
reading. -/
theorem run_edit (change : Edit α) (filling : Filling) :
    (edit change).run filling = match change.run filling.arena with
      | .ok value arena => .ok value { filling with arena := arena }
      | .error violation arena => .error (.tree violation) { filling with arena := arena } := rfl

private theorem edit_pure (a : α) : edit (pure a) = pure a := rfl

private theorem edit_bind (x : Edit α) (f : α → Edit β) :
    edit (x >>= f) = edit x >>= fun a => edit (f a) := by
  funext filling
  change (edit (x >>= f)).run filling = (edit x >>= fun a => edit (f a)).run filling
  rw [EStateM.run_bind, run_edit, run_edit, EStateM.run_bind]
  cases x.run filling.arena <;> rfl

end Filling

@[simp] theorem plant_absent_eq :
    plant .absent = pure (Builder.absent Filling) := rfl

@[simp] theorem Stock.edit_none : Stock.none.edit = pure () := rfl

@[simp] theorem Stock.edit_and (stock : Stock α) (last : Stock β) :
    (stock.and last).edit = stock.edit >>= fun a => last.edit >>= fun b => pure (a, b) := rfl

@[simp] theorem Crop.edit_tree {tree : SourceTree} (h : Crop.tree.Whole tree) :
    (Crop.tree.stock h).edit = plant tree := rfl

@[simp] theorem Crop.edit_optional {tree : SourceTree} (h : Crop.optional.Whole tree) :
    (Crop.optional.stock h).edit = plant tree := rfl

@[simp] theorem Crop.edit_row {trees : List SourceTree} (h : Crop.row.Whole trees) :
    (Crop.row.stock h).edit = trees.mapM plant := rfl

private theorem Stock.run_and (stock : Stock α) (last : Stock β) :
    (stock.and last).run = stock.run >>= fun a => last.run >>= fun b => pure (a, b) := by
  simp only [run, and, Filling.edit_bind, Filling.edit_pure]

private theorem Crop.run_stock_data (a : α) : (data.stock (a := a) trivial).run = pure a := rfl

/-- Without handles it does not matter what the reading over trees gives. -/
theorem Tracks.of_error {start arena : Arena} {violation : Violation} {cursor cursor' : Cursor}
    {result : EStateM.Result ParseError Cursor α} (hs : NodeId.maxIndex < arena.size)
    (h : Tracks crop start result (.error (.tree violation) ⟨cursor, arena⟩)) :
    Tracks crop start result (.error (.tree violation) ⟨cursor', arena⟩) := by
  cases result with
  | ok a last => exact h
  | error error last => exact .inr ⟨violation, rfl, hs⟩

/-- What is in stock is allocated before the reading goes on. -/
theorem Stock.run_bind (stock : Stock γ) (l : γ → Parser Filling β) (cursor : Cursor)
    (arena : Arena) :
    (stock.run >>= l).run ⟨cursor, arena⟩ = match stock.edit.run arena with
      | .ok c arena' => (l c).run ⟨cursor, arena'⟩
      | .error violation arena' => .error (.tree violation) ⟨cursor, arena'⟩ := by
  rw [EStateM.run_bind, run, Filling.run_edit]
  cases stock.edit.run arena <;> rfl

/-- What is read first is in stock when the reading goes on. -/
theorem Follows.bind {k : α → Parser Cursor δ} {l : β → Parser Filling ε} {last : Crop δ ε}
    (h : Follows p q crop)
    (hk : ∀ a (ha : crop.Whole a), Follows (k a) ((crop.stock ha).run >>= l) last) :
    Follows (p >>= k) (q >>= l) last := by
  intro cursor arena hf
  have hfirst := h cursor arena hf
  rw [EStateM.run_bind, EStateM.run_bind]
  cases hp : p.run cursor with
  | ok a cursor' =>
    cases hq : q.run ⟨cursor, arena⟩ with
    | ok b filling =>
      rw [hp, hq] at hfirst
      obtain ⟨ha, hsow, rfl⟩ := hfirst
      have hnext := hk a ha filling.cursor arena hf
      rwa [Stock.run_bind, Crop.stock, hsow] at hnext
    | error error filling =>
      rw [hp, hq] at hfirst
      obtain ⟨ha, violation, rfl, hsow⟩ := hfirst
      have hnext := hk a ha cursor' arena hf
      rw [Stock.run_bind, Crop.stock, hsow] at hnext
      have hsecure := crop.secure ha arena hf
      rw [hsow] at hsecure
      exact hnext.of_error hsecure
  | error error cursor' =>
    cases hq : q.run ⟨cursor, arena⟩ with
    | ok b filling =>
      rw [hp, hq] at hfirst
      exact hfirst.elim
    | error error' filling =>
      rw [hp, hq] at hfirst
      exact hfirst

/-- What is found in the arena in the end is what was read, with nothing missing. -/
theorem Tracks.whole {start : Arena} {a : α} {cursor : Cursor}
    {result : EStateM.Result ParseError Filling β} (h : Tracks crop start (.ok a cursor) result) :
    crop.Whole a := by
  cases result with
  | ok b filling => exact h.1
  | error error filling => exact h.1

/-- Nothing is missing in what is read over trees. -/
theorem Follows.whole (h : Follows p q crop) {cursor cursor' : Cursor} {a : α}
    (hp : p.run cursor = .ok a cursor') : crop.Whole a := by
  have hempty := h cursor .empty fun _ => Arena.built_empty
  rw [hp] at hempty
  exact hempty.whole

/-- The state in which a reading ends, a refusal included. -/
def Filling.last : EStateM.Result ParseError Filling β → Filling
  | .ok _ filling => filling
  | .error _ filling => filling

/-- There are handles for the nodes that are made on reading, up to the end of it or to a refusal.
-/
def Filling.HasRoom (filling : Filling) (q : Parser Filling β) : Prop :=
  (last (q.run filling)).arena.size ≤ NodeId.maxIndex

instance (q : Parser Filling β) (filling : Filling) : Decidable (filling.HasRoom q) :=
  inferInstanceAs (Decidable (_ ≤ _))

/-- What is read over trees is read into an arena, or there are not handles enough. -/
theorem Follows.run_cases (h : Follows p q crop) {cursor cursor' : Cursor} {a : α} {arena : Arena}
    (hf : arena.Fair) (hp : p.run cursor = .ok a cursor') :
    (∃ b arena', q.run ⟨cursor, arena⟩ = .ok b ⟨cursor', arena'⟩ ∧ arena'.Fair) ∨
      ∃ error filling, q.run ⟨cursor, arena⟩ = .error error filling ∧
        NodeId.maxIndex < filling.arena.size := by
  have htracks := h cursor arena hf
  rw [hp] at htracks
  cases hq : q.run ⟨cursor, arena⟩ with
  | ok b filling =>
    rw [hq] at htracks
    obtain ⟨ha, hsow, rfl⟩ := htracks
    have hsecure := crop.secure ha arena hf
    rw [hsow] at hsecure
    exact .inl ⟨b, filling.arena, rfl, hsecure⟩
  | error error filling =>
    rw [hq] at htracks
    obtain ⟨ha, violation, rfl, hsow⟩ := htracks
    have hsecure := crop.secure ha arena hf
    rw [hsow] at hsecure
    exact .inr ⟨_, filling, rfl, hsecure⟩

/-- What is read into an arena is read over trees. -/
theorem Follows.exists_run_eq_ok (h : Follows p q crop) {filling filling' : Filling} {b : β}
    (hf : filling.arena.Fair) (hq : q.run filling = .ok b filling') :
    ∃ a, p.run filling.cursor = .ok a filling'.cursor := by
  have htracks := h filling.cursor filling.arena hf
  rw [hq] at htracks
  cases hp : p.run filling.cursor with
  | ok a cursor =>
    rw [hp] at htracks
    exact ⟨a, congrArg _ htracks.2.2.symm⟩
  | error error cursor =>
    rw [hp] at htracks
    exact htracks.elim

/-- What is in stock stays there while something else is read. -/
theorem Follows.after (h : Follows p q crop) (stock : Stock γ) :
    Follows p (stock.run >>= fun c => q >>= fun b => pure (c, b)) (crop.after stock) := by
  intro cursor arena hf
  have hstock := stock.secure arena hf
  rw [Stock.run_bind]
  -- an arena without room for the stock stops the reading, whatever `p` would have done
  cases hs : stock.edit.run arena with
  | error violation arena' =>
    rw [hs] at hstock
    cases hp : p.run cursor with
    | error error cursor' => exact .inr ⟨violation, rfl, hstock⟩
    | ok a cursor' =>
      refine ⟨h.whole hp, violation, rfl, ?_⟩
      rw [Crop.after, EStateM.run_bind, hs]
  | ok c middle =>
    rw [hs] at hstock
    have hfirst := h cursor middle hstock
    have hsow (a : α) : ((crop.after stock).sow a).run arena = match (crop.sow a).run middle with
        | .ok b arena' => .ok (c, b) arena'
        | .error violation arena' => .error violation arena' := by
      simp only [Crop.after, EStateM.run_bind, hs]
      cases (crop.sow a).run middle <;> rfl
    simp only [EStateM.run_bind]
    cases hp : p.run cursor with
    | ok a cursor' =>
      cases hq : q.run ⟨cursor, middle⟩ with
      | ok b filling =>
        rw [hp, hq] at hfirst
        obtain ⟨ha, hrun, hcursor⟩ := hfirst
        refine ⟨ha, ?_, hcursor⟩
        rw [hsow, hrun]
      | error error filling =>
        rw [hp, hq] at hfirst
        obtain ⟨ha, violation, rfl, hrun⟩ := hfirst
        refine ⟨ha, violation, rfl, ?_⟩
        rw [hsow, hrun]
    | error error cursor' =>
      cases hq : q.run ⟨cursor, middle⟩ with
      | ok b filling =>
        rw [hp, hq] at hfirst
        exact hfirst.elim
      | error error' filling =>
        rw [hp, hq] at hfirst
        exact hfirst

/-! ## Steps of a production -/

/-- A production starts with nothing in stock. -/
theorem Follows.start (h : Follows p (Stock.none.run >>= fun _ => q) crop) : Follows p q crop := h

/-- Something is read while what is in stock waits. -/
theorem Follows.next {k : α → Parser Cursor δ} {l : γ → β → Parser Filling ε} {last : Crop δ ε}
    (h : Follows p q crop) (hk : ∀ a (ha : crop.Whole a),
      Follows (k a) ((stock.and (crop.stock ha)).run >>= fun g => l g.1 g.2) last) :
    Follows (p >>= k) (stock.run >>= fun c => q >>= l c) last := by
  have hnext := (h.after stock).bind (l := fun g => l g.1 g.2) fun a ha => hk a ha
  simpa only [bind_assoc, pure_bind] using hnext

/-- Something is read and takes all of the stock. -/
theorem Follows.into {k : α → Parser Cursor δ} {q : γ → Parser Filling β}
    {l : β → Parser Filling ε} {last : Crop δ ε} (h : Follows p (stock.run >>= q) crop)
    (hk : ∀ a (ha : crop.Whole a), Follows (k a) ((crop.stock ha).run >>= l) last) :
    Follows (p >>= k) (stock.run >>= fun c => q c >>= l) last := by
  rw [← bind_assoc]
  exact h.bind hk

private theorem follows_of_lifts {q : Parser Filling α} (h : Grammar.Lifts p q) :
    Follows p q .data := by
  intro cursor arena _
  rw [h ⟨cursor, arena⟩, Reading.cursor]
  cases p.run cursor with
  | ok a place => exact ⟨trivial, rfl, rfl⟩
  | error error place => exact .inl ⟨rfl, rfl⟩

/-- Tokens are taken while what is in stock waits. -/
theorem Follows.take {k : α → Parser Cursor δ} {q : Parser Filling α}
    {l : γ → α → Parser Filling ε} {last : Crop δ ε} (h : Grammar.Lifts p q)
    (hk : ∀ a, Follows (k a) (stock.run >>= fun c => l c a) last) :
    Follows (p >>= k) (stock.run >>= fun c => q >>= l c) last := by
  refine (follows_of_lifts h).next fun a ha => ?_
  rw [Stock.run_and, Crop.run_stock_data]
  simpa only [bind_assoc, pure_bind] using hk a

/-- A branch is followed if both of its sides are. -/
theorem Follows.ite {P : Prop} [Decidable P] {p' : Parser Cursor α} {q q' : γ → Parser Filling β}
    (h : Follows p (stock.run >>= q) crop) (h' : Follows p' (stock.run >>= q') crop) :
    Follows (if P then p else p') (stock.run >>= fun c => if P then q c else q' c) crop := by
  split
  · exact h
  · exact h'

/-- What was read has its nodes allocated. -/
theorem follows_sow {a : α} (ha : crop.Whole a) :
    Follows (pure a) (Filling.edit (crop.sow a)) crop := by
  intro cursor arena _
  rw [Filling.run_edit]
  cases hs : (crop.sow a).run arena with
  | ok b arena' => exact ⟨ha, hs, rfl⟩
  | error violation arena' => exact ⟨ha, violation, rfl, hs⟩

/-- What was read is made of what is in stock. -/
theorem follows_pure {a : α} {f : γ → β} (ha : crop.Whole a) (h : f <$> stock.edit = crop.sow a) :
    Follows (pure a) (stock.run >>= fun c => pure (f c)) crop := by
  have hstock : Filling.edit (crop.sow a) = stock.run >>= fun c => pure (f c) := by
    rw [← h, ← bind_pure_comp, Filling.edit_bind]
    rfl
  exact hstock ▸ follows_sow ha

/-- What was read is what is in stock. -/
theorem follows_kept {a : α} (ha : crop.Whole a) :
    Follows (pure a) ((crop.stock ha).run >>= fun b => pure b) crop := by
  rw [bind_pure]
  exact follows_sow ha

/-- What is in stock may be taken in another form. -/
theorem Follows.recast (stock' : Stock δ) {l : δ → Parser Filling β} (f : γ → δ)
    (hf : f <$> stock.edit = stock'.edit) (h : Follows p (stock'.run >>= l) crop) :
    Follows p (stock.run >>= fun c => l (f c)) crop := by
  have hrun : stock'.run = stock.run >>= fun c => pure (f c) := by
    rw [Stock.run, ← hf, ← bind_pure_comp, Filling.edit_bind]
    rfl
  simpa only [hrun, bind_assoc, pure_bind] using h

/-- A tree that must be there may stand where one may be missing. -/
theorem Follows.optional {q : Parser Filling NodeId} {p : Parser Cursor SourceTree}
    (h : Follows p q .tree) : Follows p q .optional := by
  intro cursor arena hf
  have htree := h cursor arena hf
  cases hp : p.run cursor <;> cases hq : q.run ⟨cursor, arena⟩ <;> rw [hp, hq] at htree
  · exact ⟨fun _ => htree.1, htree.2⟩
  · exact ⟨fun _ => htree.1, htree.2⟩
  · exact htree
  · exact htree

/-- An empty slot takes no node. -/
theorem follows_absent :
    Follows (pure (Builder.absent Cursor)) (pure (Builder.absent Filling)) .optional :=
  follows_sow Crop.Whole.absent

private theorem Follows.refuse {refusal : Cursor → ParseError}
    (hp : ∀ cursor, p.run cursor = .error (refusal cursor) cursor)
    (hq : ∀ filling, q.run filling = .error (refusal filling.cursor) filling) :
    Follows p (stock.run >>= fun _ => q) crop := by
  intro cursor arena hf
  have hsecure := stock.secure arena hf
  rw [hp, Stock.run_bind]
  cases hs : stock.edit.run arena with
  | ok c middle =>
    simp only [hq]
    exact .inl ⟨rfl, rfl⟩
  | error violation arena' =>
    rw [hs] at hsecure
    exact .inr ⟨violation, rfl, hsecure⟩

/-- A token is refused while filling an arena as it is without one. -/
theorem follows_unexpected (expected : Expectation) :
    Follows (Grammar.unexpected expected : Parser Cursor α)
      (stock.run >>= fun _ => (Grammar.unexpected expected : Parser Filling β)) crop :=
  .refuse (fun _ => rfl) fun _ => rfl

/-- A construct is refused while filling an arena as it is without one. -/
theorem follows_unsupported (construct : Construct) :
    Follows (Grammar.unsupported construct : Parser Cursor α)
      (stock.run >>= fun _ => (Grammar.unsupported construct : Parser Filling β)) crop :=
  .refuse (fun _ => rfl) fun _ => rfl

/-! ### Nodes -/

/-- A node made of what is in stock is the node allocated last: its texts and children are those
already in the arena, in the order in which a plain fold would have put them there. -/
theorem follows_build {span : Span} {kind : NodeKind String SourceTree}
    {kind' : γ → NodeKind String NodeId}
    (h : kind' <$> stock.edit = kind.traverse pure (fun _ => plant) fun _ trees => trees.mapM plant)
    (hslots : ∀ slot ∈ kind.slots, Tree.SlotComplete kind.tag slot) :
    Follows (Builder.build span kind : Parser Cursor SourceTree)
      (stock.run >>= fun c => Builder.build span (kind' c)) .tree := by
  have hwhole : Crop.tree.Whole (.node span kind) := .of_slots hslots
  have hstock : Filling.edit (plant (.node span kind)) =
      stock.run >>= fun c => Builder.build span (kind' c) := by
    rw [plant_node_eq, ← h, ← bind_pure_comp, bind_assoc, Filling.edit_bind]
    simp only [pure_bind]
    rfl
  exact hstock ▸ follows_sow hwhole

/-- A node that ends before the next token is allocated with the same span. -/
theorem follows_node {start : Span} {kind : NodeKind String SourceTree}
    {kind' : γ → NodeKind String NodeId}
    (h : kind' <$> stock.edit = kind.traverse pure (fun _ => plant) fun _ trees => trees.mapM plant)
    (hslots : ∀ slot ∈ kind.slots, Tree.SlotComplete kind.tag slot) :
    Follows (Grammar.node start kind : Parser Cursor SourceTree)
      (stock.run >>= fun c => Grammar.node start (kind' c)) .tree :=
  .take Grammar.lifts_place fun _ => follows_build h hslots

/-! ### Repetition -/

/-- A loop ends with what was there before. -/
theorem follows_done {a : α} (ha : crop.Whole a) :
    Follows (pure none) ((crop.stock ha).run >>= fun _ => pure none) (crop.turn a) :=
  have hwhole : (crop.turn a).Whole none := ha
  follows_pure hwhole (by rw [← bind_pure_comp]; rfl)

/-- A loop goes on with something else. -/
theorem follows_again {last next : α} (h : crop.Whole next) :
    Follows (pure (some next)) ((crop.stock h).run >>= fun b => pure (some b)) (crop.turn last) :=
  have hwhole : (crop.turn last).Whole (some next) := h
  follows_pure hwhole (by rw [← bind_pure_comp]; rfl)

/-- A loop goes on with a node that takes in what there was. -/
theorem follows_node_again {start : Span} {kind : NodeKind String SourceTree}
    {kind' : γ → NodeKind String NodeId} {last : SourceTree}
    (h : kind' <$> stock.edit = kind.traverse pure (fun _ => plant) fun _ trees => trees.mapM plant)
    (hslots : ∀ slot ∈ kind.slots, Tree.SlotComplete kind.tag slot) :
    Follows (Grammar.node start kind >>= fun top => pure (some top) : Parser Cursor _)
      (stock.run >>= fun c => Grammar.node start (kind' c) >>= fun top => pure (some top))
      (Crop.tree.turn last) :=
  (follows_node h hslots).into fun _ htop => follows_again htop

/-- A loop goes on with one more tree at the end of a row. -/
theorem follows_append {trees : List SourceTree} {tree : SourceTree} (hs : Crop.row.Whole trees)
    (ht : Crop.tree.Whole tree) :
    Follows (pure (some (trees ++ [tree])))
      (((Crop.row.stock hs).and (Crop.tree.stock ht)).run >>= fun g => pure (some (g.1 ++ [g.2])))
      (Crop.row.turn trees) := by
  have hrow : Crop.row.Whole (trees ++ [tree]) := by
    simpa [or_imp, forall_and] using ⟨hs, ht⟩
  have hwhole : (Crop.row.turn trees).Whole (some (trees ++ [tree])) := hrow
  refine follows_pure hwhole ?_
  simp [Crop.turn, List.mapM_append]

private theorem Crop.run_turn (crop : Crop α β) (last : α) (next : Option α) (arena : Arena) :
    ((crop.turn last).sow next).run arena = match (crop.sow (next.getD last)).run arena with
      | .ok b arena' => .ok (next.map fun _ => b) arena'
      | .error violation arena' => .error violation arena' := by
  rw [turn, EStateM.run_bind]
  cases (crop.sow (next.getD last)).run arena <;> rfl

section Loops

variable {step : α → Parser Cursor (Option α)} {step' : β → Parser Filling (Option β)}

/-- A turn ends with what it leaves in stock, or is refused for want of handles. -/
theorem Tracks.turn_cases {start : Arena} {a : α} {next : Option α} {cursor : Cursor}
    {result : EStateM.Result ParseError Filling (Option β)}
    (h : Tracks (crop.turn a) start (.ok next cursor) result) :
    (∃ b arena, (crop.sow (next.getD a)).run start = .ok b arena ∧
      result = .ok (next.map fun _ => b) ⟨cursor, arena⟩) ∨
    ∃ violation filling, (crop.sow (next.getD a)).run start = .error violation filling.arena ∧
      result = .error (.tree violation) filling := by
  have hrun := crop.run_turn a next start
  cases result with
  | ok next' filling =>
    obtain ⟨-, hsow, rfl⟩ := h
    rw [hrun] at hsow
    cases hs : (crop.sow (next.getD a)).run start with
    | ok b arena =>
      rw [hs] at hsow
      cases hsow
      exact .inl ⟨b, filling.arena, rfl, rfl⟩
    | error violation arena =>
      rw [hs] at hsow
      cases hsow
  | error error filling =>
    obtain ⟨-, violation, rfl, hsow⟩ := h
    rw [hrun] at hsow
    cases hs : (crop.sow (next.getD a)).run start with
    | ok b arena =>
      rw [hs] at hsow
      cases hsow
    | error violation' arena =>
      rw [hs] at hsow
      cases hsow
      exact .inr ⟨violation, filling, rfl, rfl⟩

/-- A loop over what is in stock takes its first turn with it. -/
private theorem run_stock_iterate (stock : Stock β) (turns : Nat) (cursor : Cursor)
    (arena : Arena) :
    (stock.run >>= Grammar.iterate step' (turns + 1)).run ⟨cursor, arena⟩ =
      match (stock.run >>= step').run ⟨cursor, arena⟩ with
      | .ok (some next) filling => (Grammar.iterate step' turns next).run filling
      | .ok none filling => match stock.edit.run arena with
        | .ok b _ => .ok b filling
        | .error violation _ => .error (.tree violation) filling
      | .error error filling => .error error filling := by
  rw [Stock.run_bind, Stock.run_bind]
  cases stock.edit.run arena with
  | error violation arena' => rfl
  | ok b middle =>
    simp only [Grammar.run_iterate_succ]
    cases (step' b).run ⟨cursor, middle⟩ with
    | error error filling => rfl
    | ok next filling => cases next <;> rfl

/-- A loop is followed turn by turn: what a turn gives is in stock for the next one. -/
private theorem follows_iterate
    (h : ∀ a (ha : crop.Whole a), Follows (step a) ((crop.stock ha).run >>= step') (crop.turn a))
    (turns : Nat) {a : α} (ha : crop.Whole a) :
    Follows (Grammar.iterate step turns a)
      ((crop.stock ha).run >>= Grammar.iterate step' turns) crop := by
  -- on the turns left; the arena holds what the value read so far needs, and no more
  induction turns generalizing a with
  | zero =>
    have hpure : Follows (pure a) (crop.stock ha).run crop := follows_sow ha
    rwa [← bind_pure (crop.stock ha).run] at hpure
  | succ turns ih =>
    intro cursor arena hf
    have hturn := h a ha cursor arena hf
    rw [run_stock_iterate, Grammar.run_iterate_succ]
    cases hp : (step a).run cursor with
    | error error cursor' =>
      rw [hp] at hturn
      cases hq : ((crop.stock ha).run >>= step').run ⟨cursor, arena⟩ with
      | ok next filling =>
        rw [hq] at hturn
        exact hturn.elim
      | error error' filling => rwa [hq] at hturn
    | ok next cursor' =>
      rw [hp] at hturn
      cases next with
      | none =>
        obtain ⟨b, middle, hsow, hq⟩ | ⟨violation, filling, hsow, hq⟩ := hturn.turn_cases
        · have hstock : (crop.stock ha).edit.run arena = .ok b middle := hsow
          rw [hq, Option.map_none, hstock]
          exact ⟨ha, hsow, rfl⟩
        · rw [hq]
          exact ⟨ha, violation, rfl, hsow⟩
      | some next =>
        have hnext : crop.Whole next := hturn.whole
        have hrest := ih hnext cursor' arena hf
        have hsecure := crop.secure hnext arena hf
        rw [Stock.run_bind] at hrest
        obtain ⟨b, middle, hsow, hq⟩ | ⟨violation, filling, hsow, hq⟩ := hturn.turn_cases
        · have hstock : (crop.stock hnext).edit.run arena = .ok b middle := hsow
          rw [hstock] at hrest
          rwa [hq]
        · have hstock : (crop.stock hnext).edit.run arena = .error violation filling.arena := hsow
          rw [hstock] at hrest
          rw [← Option.getD_some (a := next) (b := a), hsow] at hsecure
          rw [hq]
          exact hrest.of_error hsecure

/-- A bound is taken from the cursor, which filling an arena does not touch. -/
theorem follows_bounded {p : Nat → Parser Cursor α} {q : Nat → Parser Filling β}
    (h : ∀ depth, Follows (p depth) (q depth) crop) :
    Follows (Grammar.bounded p) (Grammar.bounded q) crop :=
  fun cursor arena hf => h cursor.rest.length cursor arena hf

/-- A loop follows as its turns do. -/
theorem follows_repeating
    (h : ∀ a (ha : crop.Whole a), Follows (step a) ((crop.stock ha).run >>= step') (crop.turn a))
    {a : α} (ha : crop.Whole a) :
    Follows (Grammar.repeating step a) ((crop.stock ha).run >>= Grammar.repeating step') crop :=
  .take Grammar.lifts_place fun _ => follows_iterate h _ ha

end Loops

/-- A loop over the rows of trees that starts with none. -/
theorem follows_rows {step : List SourceTree → Parser Cursor (Option (List SourceTree))}
    {step' : List NodeId → Parser Filling (Option (List NodeId))}
    (h : ∀ trees (hs : Crop.row.Whole trees),
      Follows (step trees) ((Crop.row.stock hs).run >>= step') (Crop.row.turn trees)) :
    Follows (Grammar.repeating step []) (Grammar.repeating step' []) .row :=
  have hnil : Crop.row.Whole [] := by simp
  follows_repeating h hnil

/-- Trees with commas between them are allocated one after the other, as they are read. -/
theorem follows_commaSeparated {item : Parser Cursor SourceTree} {item' : Parser Filling NodeId}
    (h : Follows item item' .tree) :
    Follows (Grammar.commaSeparated item) (Grammar.commaSeparated item') .row := by
  refine .start <| .into h fun first hfirst => ?_
  have hone : Crop.row.Whole [first] := by simpa using hfirst
  refine .recast (Crop.row.stock hone) (fun id => [id]) (by simp) ?_
  refine follows_repeating (fun trees hs => ?_) hone
  refine .take (Grammar.lifts_eatPunctuator .comma) fun _ => .ite ?_ (follows_done hs)
  exact h.next fun tree ht => follows_append hs ht

end JavaFold
