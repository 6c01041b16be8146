import JavaFold.Proofs.Token.Tiling
import JavaFold.Proofs.Tree.Shape

/-!
# Ranges that nest

The nodes of a tree carry the parts of a source they were read from. In a row of trees these parts
stand in order, one after the other, and within given bounds; what is below a node is such a row
within the part of the node; and names and literals have as their texts what stands in their part.
`Tree.Row` says all of it at once, so that rows can be put together as they are read.
-/

namespace JavaFold

namespace NodeKind

variable {τ σ α β : Type}

/-- The text of a name, or of a literal that has one. -/
def word? : NodeKind τ α → Option τ
  | simpleName text | characterLiteral text | stringLiteral text | numberLiteral text => some text
  | _ => none

theorem word?_map (text : τ → σ) (child : α → β) (kind : NodeKind τ α) :
    (kind.map text child).word? = kind.word?.map text := by
  cases kind <;> rfl

end NodeKind

namespace Tree

variable {source : String} {lo hi lo' hi' mid : Nat} {span : Span}
  {kind : NodeKind String (Tree Span)} {tree : Tree Span} {trees trees' : List (Tree Span)}

/-- Trees in the order of a source, between two offsets. Empty slots may stand anywhere. -/
inductive Row (source : String) : Nat → Nat → List (Tree Span) → Prop where
  | nil {lo hi : Nat} : Row source lo hi []
  | absent {lo hi : Nat} {trees : List (Tree Span)} (after : Row source lo hi trees) :
    Row source lo hi (.absent :: trees)
  | node {lo hi : Nat} {span : Span} {kind : NodeKind String (Tree Span)}
    {trees : List (Tree Span)} (front : lo ≤ span.start) (extent : span.start < span.stop)
    (back : span.stop ≤ hi) (word : ∀ text ∈ kind.word?, span.slice? source = some text)
    (below : Row source span.start span.stop kind.occupants)
    (after : Row source span.stop hi trees) :
    Row source lo hi (.node span kind :: trees)

/-- A tree that was read from a source. The part of its top node may be empty. -/
inductive Placed (source : String) : Tree Span → Prop where
  | absent : Placed source .absent
  | node {span : Span} {kind : NodeKind String (Tree Span)} (extent : span.start ≤ span.stop)
    (back : span.stop ≤ source.utf8ByteSize)
    (word : ∀ text ∈ kind.word?, span.slice? source = some text)
    (below : Row source span.start span.stop kind.occupants) : Placed source (.node span kind)

namespace Row

theorem widen (h : Row source lo hi trees) (hlo : lo' ≤ lo) (hhi : hi ≤ hi') :
    Row source lo' hi' trees := by
  induction h generalizing lo' with
  | nil => exact .nil
  | absent _ ih => exact .absent (ih hlo hhi)
  | node front extent back word below after _ ih =>
    exact .node (Nat.le_trans hlo front) extent (Nat.le_trans back hhi) word below
      (ih (Nat.le_refl _) hhi)

/-- A row goes on with another one that starts where it ends. -/
theorem append (h : Row source lo mid trees) (hle : Row source lo hi trees)
    (h' : Row source mid hi trees') (hlo : lo ≤ mid) : Row source lo hi (trees ++ trees') := by
  -- `hle` cannot be had by widening `h`: an empty second row does not say that `mid ≤ hi`
  induction h with
  | nil => exact h'.widen hlo (Nat.le_refl _)
  | absent _ ih =>
    cases hle with
    | absent hle => exact .absent (ih hle h' hlo)
  | node front extent back word below _ _ ih =>
    cases hle with
    | node _ _ back' _ _ hle => exact .node front extent back' word below (ih hle h' back)

/-- Where the first tree of a row ends, the rest of the row starts. -/
theorem split (h : Row source lo hi (tree :: trees)) (hle : lo ≤ hi) :
    ∃ mid, lo ≤ mid ∧ mid ≤ hi ∧ Row source lo mid [tree] ∧ Row source mid hi trees := by
  cases h with
  | absent after => exact ⟨lo, Nat.le_refl _, hle, .absent .nil, after⟩
  | node front extent back word below after =>
    exact ⟨_, Nat.le_trans front (Nat.le_of_lt extent), back,
      .node front extent (Nat.le_refl _) word below .nil, after⟩

/-- A row stays one if each of its trees is replaced by one that fits wherever the tree does. -/
theorem map_congr {α : Type} {items : List α} {f g : α → Tree Span}
    (h : Row source lo hi (items.map f)) (hle : lo ≤ hi)
    (hg : ∀ a ∈ items, ∀ {lo hi : Nat}, Row source lo hi [f a] → Row source lo hi [g a]) :
    Row source lo hi (items.map g) := by
  induction items generalizing lo with
  | nil => exact .nil
  | cons a items ih =>
    obtain ⟨mid, hlo, hhi, hfirst, hrest⟩ := h.split hle
    have hfirst' := hg a List.mem_cons_self hfirst
    exact hfirst'.append (hfirst'.widen (Nat.le_refl _) hhi)
      (ih hrest hhi fun b hb => hg b (List.mem_cons_of_mem _ hb)) hlo

/-- A row below a node stays one if its trees are replaced one by one. -/
theorem below_congr {τ α : Type} {kind : NodeKind τ α} {text : τ → String}
    {f g : α → Tree Span} (h : Row source lo hi (kind.map text f).occupants) (hle : lo ≤ hi)
    (hg : ∀ c ∈ kind.occupants, ∀ {lo hi : Nat}, Row source lo hi [f c] → Row source lo hi [g c]) :
    Row source lo hi (kind.map text g).occupants := by
  rw [NodeKind.occupants_map] at h ⊢
  exact h.map_congr hle hg

/-- The trees of a row lie within its bounds, and not one of them is empty. -/
theorem within (h : Row source lo hi trees) : ∀ tree ∈ trees, ∀ {span kind},
    tree = .node span kind → lo ≤ span.start ∧ span.start < span.stop ∧ span.stop ≤ hi := by
  induction h with
  | nil => exact nofun
  | absent _ ih => exact List.forall_mem_cons.2 ⟨nofun, ih⟩
  | node front extent back _ _ after _ ih =>
    refine List.forall_mem_cons.2 ⟨?_, fun tree ht span kind he => ?_⟩
    · rintro span kind ⟨⟩
      exact ⟨front, extent, back⟩
    · obtain ⟨hstart, hrest⟩ := ih tree ht he
      exact ⟨Nat.le_trans (Nat.le_trans front (Nat.le_of_lt extent)) hstart, hrest⟩

/-- Each tree of a row ends before the next ones start. -/
theorem ordered (h : Row source lo hi trees) : trees.Pairwise fun tree next =>
    ∀ {span kind span' kind'}, tree = .node span kind → next = .node span' kind' →
      span.stop ≤ span'.start := by
  induction h with
  | nil => exact .nil
  | absent _ ih => exact .cons (fun _ _ => nofun) ih
  | node _ _ _ _ _ after _ ih =>
    refine .cons (fun next hnext => ?_) ih
    rintro span kind span' kind' ⟨⟩ he
    exact (after.within next hnext he).1

theorem placed (h : Row source lo hi trees) (hhi : hi ≤ source.utf8ByteSize) :
    ∀ tree ∈ trees, Placed source tree := by
  induction h with
  | nil => exact nofun
  | absent _ ih => exact List.forall_mem_cons.2 ⟨.absent, ih hhi⟩
  | node front extent back word below after _ ih =>
    exact List.forall_mem_cons.2 ⟨.node (Nat.le_of_lt extent) (Nat.le_trans back hhi) word below,
      ih hhi⟩

end Row

/-- Every part of a tree that was read stands where it was read from. -/
theorem Placed.of_mem_subtrees {part : Tree Span} (h : tree.Placed source)
    (hp : part ∈ tree.subtrees) : part.Placed source := by
  induction tree using byOccupants with
  | absent => simp at hp
  | node span kind ih =>
    rcases mem_subtrees_node.1 hp with rfl | ⟨c, hc, hp⟩
    · exact h
    · cases h with
      | node extent back word below => exact ih c hc (below.placed back c hc) hp

end Tree

end JavaFold
