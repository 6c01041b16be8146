import JavaFold.Proofs.Arena.Matching

/-!
# The first difference

Where the comparison of two nodes reports a mismatch, one and the same sequence of locations leads
from the two nodes to the two that are reported (`Alongside`). On the way the nodes agree, and so do
the children before the one that is chosen (`Passes`); at the end the nodes differ in themselves or
in where a child sits (`Differ`). Nothing else has this property, so the reported mismatch is the
first one in source order.
-/

namespace JavaFold

/-! ## Rows side by side -/

section Rows

variable {α β γ α' β' : Type} {find find' : α → β → Option γ} {left : List α} {right : List β}

private theorem firstOfBoth_cons (find : α → β → Option γ) (x : α) (y : β) (left : List α)
    (right : List β) :
    firstOfBoth find (x :: left) (y :: right) = (find x y).or (firstOfBoth find left right) := by
  rw [firstOfBoth, List.zip_cons_cons, List.findSome?_cons]
  cases h : find x y <;> simp [h, firstOfBoth]

private theorem firstOfBoth_map (find : α' → β' → Option γ) (f : α → α') (g : β → β')
    (left : List α)
    (right : List β) :
    firstOfBoth find (left.map f) (right.map g) =
      firstOfBoth (fun x y => find (f x) (g y)) left right := by
  rw [firstOfBoth, List.zip_map, List.findSome?_map]
  rfl

private theorem firstOfBoth_congr (h : ∀ x ∈ left, ∀ y ∈ right, find x y = find' x y) :
    firstOfBoth find left right = firstOfBoth find' left right := by
  induction left generalizing right with
  | nil => rfl
  | cons x left ih =>
    cases right with
    | nil => rfl
    | cons y right =>
      rw [firstOfBoth_cons, firstOfBoth_cons, h x List.mem_cons_self y List.mem_cons_self,
        ih fun x hx y hy => h x (List.mem_cons_of_mem _ hx) y (List.mem_cons_of_mem _ hy)]

/-- What is found first in two rows is found at elements before which nothing is found. -/
theorem firstOfBoth_eq_some_iff {found : γ} :
    firstOfBoth find left right = some found ↔
      ∃ before x after before' y after', left = before ++ x :: after ∧
        right = before' ++ y :: after' ∧
        List.Forall₂ (fun x y => find x y = none) before before' ∧ find x y = some found := by
  induction left generalizing right with
  | nil => simp [firstOfBoth]
  | cons a left ih =>
    cases right with
    | nil => simp [firstOfBoth]
    | cons b right =>
      rw [firstOfBoth_cons, Option.or_eq_some_iff, ih]
      constructor
      · rintro (h | ⟨hnone, before, x, after, before', y, after', rfl, rfl, hbefore, h⟩)
        · exact ⟨[], a, left, [], b, right, rfl, rfl, .nil, h⟩
        · exact ⟨a :: before, x, after, b :: before', y, after', rfl, rfl, .cons hnone hbefore, h⟩
      · rintro ⟨before, x, after, before', y, after', hl, hr, hbefore, h⟩
        cases hbefore with
        | nil =>
          cases hl
          cases hr
          exact .inl h
        | cons hnone hbefore =>
          cases hl
          cases hr
          exact .inr ⟨hnone, _, x, after, _, y, after', rfl, rfl, hbefore, h⟩

end Rows

namespace NodeKind

variable {τ σ α β γ δ : Type}

/-- How two kinds differ has nothing to do with their children. -/
theorem difference?_map (text : τ → String) (text' : σ → String) (f : α → γ) (g : β → δ)
    (kind : NodeKind τ α) (kind' : NodeKind σ β) :
    (kind.map text f).difference? (kind'.map text' g) =
      (kind.map text fun _ => ()).difference? (kind'.map text' fun _ => ()) := by
  simp only [difference?, tag_map, attributes_map]

end NodeKind

/-- The attributes of a node, with the texts that its names stand for. -/
def Node.attributes (names : Interner) (node : Node) : List (Attribute String) :=
  (node.kind.map names.lookup fun _ => ()).attributes

namespace Arena

variable {a b va vb : Arena} {x y c d left right : NodeId} {m n : Node} {found : Mismatch}

/-! ## What is reported -/

/-- Two nodes agree in their tags, attributes and numbers of children. -/
structure Alike (a b : Arena) (m n : Node) : Prop where
  /-- The tags are the same. -/
  tag : m.tag = n.tag
  /-- The attributes are the same. -/
  attributes : m.attributes a.names = n.attributes b.names
  /-- There are as many children on both sides. -/
  count : m.kind.children.length = n.kind.children.length

/-- Children side by side sit at the same locations and match. -/
def Paired (a b : Arena) : (left right : List (Location × NodeId)) → Prop :=
  List.Forall₂ fun c d => c.1 = d.1 ∧ a.subtreesMatch c.2 b d.2 = true

/-- How two nodes differ, what comes before the difference being the same. -/
inductive Differ (a b : Arena) (x y : NodeId) : Difference → Prop where
  /-- The tags differ. -/
  | tags {m n : Node} (left : a.node? x = some m) (right : b.node? y = some n)
    (differ : m.tag ≠ n.tag) : Differ a b x y (.tags m.tag n.tag)
  /-- An attribute differs. -/
  | attributes {m n : Node} (left : a.node? x = some m) (right : b.node? y = some n)
    (tag : m.tag = n.tag) {shared rest rest' : List (Attribute String)} {p q : Attribute String}
    (cut : m.attributes a.names = shared ++ p :: rest)
    (cut' : n.attributes b.names = shared ++ q :: rest') (differ : p ≠ q) :
    Differ a b x y (.attributes p q)
  /-- The numbers of children differ. -/
  | counts {m n : Node} (left : a.node? x = some m) (right : b.node? y = some n)
    (tag : m.tag = n.tag) (attributes : m.attributes a.names = n.attributes b.names)
    (differ : m.kind.children.length ≠ n.kind.children.length) :
    Differ a b x y (.counts m.kind.children.length n.kind.children.length)
  /-- Two children side by side sit at different locations. -/
  | locations {m n : Node} (left : a.node? x = some m) (right : b.node? y = some n)
    (alike : Alike a b m n) {before after before' after' : List (Location × NodeId)}
    {l k : Location} {c d : NodeId} (cut : m.kind.children = before ++ (l, c) :: after)
    (cut' : n.kind.children = before' ++ (k, d) :: after') (earlier : Paired a b before before')
    (differ : l ≠ k) : Differ a b x y (.locations l k)

/-- The comparison of two nodes that agree passes on to the children `c` and `d` at one location,
the children before which match. -/
inductive Passes (a b : Arena) (x y : NodeId) : Location → NodeId → NodeId → Prop where
  | intro {m n : Node} (left : a.node? x = some m) (right : b.node? y = some n)
    (alike : Alike a b m n) {before after before' after' : List (Location × NodeId)}
    {location : Location} {c d : NodeId} (cut : m.kind.children = before ++ (location, c) :: after)
    (cut' : n.kind.children = before' ++ (location, d) :: after')
    (earlier : Paired a b before before') : Passes a b x y location c d

/-- The comparison of two nodes comes to two others by one sequence of locations. -/
inductive Alongside (a b : Arena) : (x y : NodeId) → List Location → NodeId → NodeId → Prop where
  /-- The two nodes themselves. -/
  | here {x y : NodeId} : Alongside a b x y [] x y
  /-- The comparison of children, and on from there. -/
  | down {x y c d x' y' : NodeId} {location : Location} {path : List Location}
    (step : Passes a b x y location c d) (below : Alongside a b c d path x' y') :
    Alongside a b x y (location :: path) x' y'

/-! ## One level of the comparison -/

namespace Shows

/-- The children of the tree of a node are the trees of its children. -/
theorem children_tree (h : a.Shows va) (hn : a.node? x = some m) :
    (m.kind.map a.names.lookup a.tree).children =
      m.kind.children.map fun (l, c) => (l, a.tree c) := by
  refine NodeKind.children_map _ fun c hc => ?_
  obtain ⟨location, hget⟩ := NodeKind.mem_occupants_iff.1 hc
  rcases h.contains_of_get? hn hget with rfl | hcontains
  · rw [tree_absent]
    rfl
  · obtain ⟨child, hchild⟩ := contains_iff.1 hcontains
    rw [h.tree_node hchild]
    exact (isPresent_of_node? hchild).symm

end Shows

/-- The comparison of two nodes looks at the nodes first, and then at their children side by side.
-/
theorem mismatch?_eq (ha : a.Shows va) (hb : b.Shows vb) (hx : a.node? x = some m)
    (hy : b.node? y = some n) :
    a.mismatch? x b y =
      (((m.kind.map a.names.lookup fun _ => ()).difference?
        (n.kind.map b.names.lookup fun _ => ())).map fun difference => ⟨x, y, difference⟩).or
      (if m.kind.children.length ≠ n.kind.children.length then
          some ⟨x, y, .counts m.kind.children.length n.kind.children.length⟩
        else
          firstOfBoth (fun c d => if c.1 ≠ d.1 then some ⟨x, y, .locations c.1 d.1⟩
            else a.mismatch? c.2 b d.2) m.kind.children n.kind.children) := by
  rw [mismatch?, contains_iff.2 ⟨m, hx⟩, contains_iff.2 ⟨n, hy⟩]
  have hrow : firstOfBoth (fun c d => if c.1 ≠ d.1 then some ⟨x, y, .locations c.1 d.1⟩
      else Tree.mismatch? c.2 d.2) (m.kind.children.map fun c => (c.1, a.tree c.2))
        (n.kind.children.map fun c => (c.1, b.tree c.2)) =
      firstOfBoth (fun c d => if c.1 ≠ d.1 then some ⟨x, y, .locations c.1 d.1⟩
        else a.mismatch? c.2 b d.2) m.kind.children n.kind.children := by
    rw [firstOfBoth_map]
    refine firstOfBoth_congr fun c hc d hd => congrArg (ite _ _) ?_
    rw [mismatch?, ha.contains_of_mem_children hx hc, hb.contains_of_mem_children hy hd]
  rw [ha.tree_node hx, hb.tree_node hy, Tree.mismatch?_node, NodeKind.difference?_map,
    ha.children_tree hx, hb.children_tree hy, List.length_map, List.length_map]
  cases NodeKind.difference? (m.kind.map a.names.lookup fun _ => ())
      (n.kind.map b.names.lookup fun _ => ()) with
  | some difference => rfl
  | none => exact congrArg (ite _ _) hrow

private theorem difference?_eq_none_iff :
    (m.kind.map a.names.lookup fun _ => ()).difference? (n.kind.map b.names.lookup fun _ => ()) =
      none ↔ m.tag = n.tag ∧ m.attributes a.names = n.attributes b.names := by
  constructor
  · intro h
    have h' := NodeKind.of_difference?_eq_none h
    rwa [NodeKind.tag_map, NodeKind.tag_map] at h'
  · rintro ⟨ht, hattributes⟩
    exact NodeKind.difference?_eq_none (by rwa [NodeKind.tag_map, NodeKind.tag_map]) hattributes

/-- Two nodes differ by themselves in their tags, or at the first of their attributes that is not
the same. -/
private theorem difference?_eq_some_iff {difference : Difference} :
    (m.kind.map a.names.lookup fun _ => ()).difference? (n.kind.map b.names.lookup fun _ => ()) =
      some difference ↔
        m.tag ≠ n.tag ∧ difference = .tags m.tag n.tag ∨
        m.tag = n.tag ∧ ∃ shared p rest q rest', m.attributes a.names = shared ++ p :: rest ∧
          n.attributes b.names = shared ++ q :: rest' ∧ p ≠ q ∧ difference = .attributes p q := by
  have hfind : (fun p q : Attribute String =>
      (if p ≠ q then some (Difference.attributes p q) else none) = none) = Eq := by
    funext p q
    simp
  rw [NodeKind.difference?, NodeKind.tag_map, NodeKind.tag_map]
  change (if m.tag ≠ n.tag then some (.tags m.tag n.tag) else firstOfBoth
    (fun p q => if p ≠ q then some (Difference.attributes p q) else none)
    (m.attributes a.names) (n.attributes b.names)) = some difference ↔ _
  by_cases ht : m.tag = n.tag
  · rw [if_neg (not_not.2 ht), firstOfBoth_eq_some_iff, hfind]
    simp only [List.forall₂_eq_eq_eq]
    constructor
    · rintro ⟨shared, p, rest, _, q, rest', hm, hn, rfl, h⟩
      rw [Option.ite_none_right_eq_some] at h
      exact .inr ⟨ht, shared, p, rest, q, rest', hm, hn, h.1, (Option.some.inj h.2).symm⟩
    · rintro (⟨hne, -⟩ | ⟨-, shared, p, rest, q, rest', hm, hn, hne, rfl⟩)
      · exact absurd ht hne
      · exact ⟨shared, p, rest, shared, q, rest', hm, hn, rfl, if_pos hne⟩
  · rw [if_pos ht]
    simp [ht, eq_comm]

/-- The comparison of children side by side reports the first place where their locations differ or
something is found in them. -/
theorem firstOfBoth_children_eq_some_iff {children children' : List (Location × NodeId)} :
    firstOfBoth (fun c d => if c.1 ≠ d.1 then some ⟨x, y, .locations c.1 d.1⟩
      else a.mismatch? c.2 b d.2) children children' = some found ↔
      ∃ before l c after before' k d after', children = before ++ (l, c) :: after ∧
        children' = before' ++ (k, d) :: after' ∧ Paired a b before before' ∧
        (l ≠ k ∧ found = ⟨x, y, .locations l k⟩ ∨ l = k ∧ a.mismatch? c b d = some found) := by
  have hfind : (fun c d : Location × NodeId =>
      (if c.1 ≠ d.1 then some (Mismatch.mk x y (.locations c.1 d.1))
        else a.mismatch? c.2 b d.2) = none) =
      fun c d => c.1 = d.1 ∧ a.subtreesMatch c.2 b d.2 = true := by
    funext c d
    by_cases h : c.1 = d.1 <;> simp [subtreesMatch, h]
  rw [firstOfBoth_eq_some_iff, hfind]
  constructor
  · rintro ⟨before, ⟨l, c⟩, after, before', ⟨k, d⟩, after', hm, hn, hpaired, h⟩
    refine ⟨before, l, c, after, before', k, d, after', hm, hn, hpaired, ?_⟩
    split at h
    next hne => exact .inl ⟨hne, (Option.some.inj h).symm⟩
    next heq => exact .inr ⟨not_not.1 heq, h⟩
  · rintro ⟨before, l, c, after, before', k, d, after', hm, hn, hpaired, h⟩
    refine ⟨before, (l, c), after, before', (k, d), after', hm, hn, hpaired, ?_⟩
    rcases h with ⟨hne, rfl⟩ | ⟨rfl, h⟩
    · exact if_pos hne
    · rw [if_neg (not_not.2 rfl), h]

/-! ## The comparison of two nodes -/

private theorem mismatch?_of_difference (ha : a.Shows va) (hb : b.Shows vb)
    (hx : a.node? x = some m) (hy : b.node? y = some n) {difference : Difference}
    (h : (m.kind.map a.names.lookup fun _ => ()).difference?
      (n.kind.map b.names.lookup fun _ => ()) = some difference) :
    a.mismatch? x b y = some ⟨x, y, difference⟩ := by
  rw [mismatch?_eq ha hb hx hy, h]
  rfl

/-- Two nodes that agree in themselves are compared by their children, if they list as many. -/
private theorem mismatch?_of_attributes (ha : a.Shows va) (hb : b.Shows vb)
    (hx : a.node? x = some m) (hy : b.node? y = some n) (ht : m.tag = n.tag)
    (hattributes : m.attributes a.names = n.attributes b.names) :
    a.mismatch? x b y = if m.kind.children.length ≠ n.kind.children.length then
        some ⟨x, y, .counts m.kind.children.length n.kind.children.length⟩
      else
        firstOfBoth (fun c d => if c.1 ≠ d.1 then some ⟨x, y, .locations c.1 d.1⟩
          else a.mismatch? c.2 b d.2) m.kind.children n.kind.children := by
  rw [mismatch?_eq ha hb hx hy, difference?_eq_none_iff.2 ⟨ht, hattributes⟩]
  rfl

private theorem mismatch?_of_alike (ha : a.Shows va) (hb : b.Shows vb) (hx : a.node? x = some m)
    (hy : b.node? y = some n) (h : Alike a b m n) :
    a.mismatch? x b y = firstOfBoth (fun c d => if c.1 ≠ d.1 then some ⟨x, y, .locations c.1 d.1⟩
      else a.mismatch? c.2 b d.2) m.kind.children n.kind.children := by
  rw [mismatch?_of_attributes ha hb hx hy h.tag h.attributes, if_neg (not_not.2 h.count)]

/-- Nodes that differ are reported to differ in this way. -/
theorem Differ.mismatch?_eq (ha : a.Shows va) (hb : b.Shows vb) {difference : Difference}
    (h : Differ a b x y difference) : a.mismatch? x b y = some ⟨x, y, difference⟩ := by
  cases h with
  | tags hx hy hne =>
    exact mismatch?_of_difference ha hb hx hy (difference?_eq_some_iff.2 (.inl ⟨hne, rfl⟩))
  | attributes hx hy ht hm hn hne =>
    exact mismatch?_of_difference ha hb hx hy
      (difference?_eq_some_iff.2 (.inr ⟨ht, _, _, _, _, _, hm, hn, hne, rfl⟩))
  | counts hx hy ht hattributes hne =>
    exact (mismatch?_of_attributes ha hb hx hy ht hattributes).trans (if_pos hne)
  | locations hx hy halike hm hn hpaired hne =>
    rw [mismatch?_of_alike ha hb hx hy halike]
    exact firstOfBoth_children_eq_some_iff.2
      ⟨_, _, _, _, _, _, _, _, hm, hn, hpaired, .inl ⟨hne, rfl⟩⟩

/-- What is reported of children that the comparison passes on to is reported of their parents. -/
theorem Passes.mismatch?_eq (ha : a.Shows va) (hb : b.Shows vb) {location : Location}
    (h : Passes a b x y location c d) (hfound : a.mismatch? c b d = some found) :
    a.mismatch? x b y = some found := by
  obtain ⟨hx, hy, halike, hm, hn, hpaired⟩ := h
  rw [mismatch?_of_alike ha hb hx hy halike]
  exact firstOfBoth_children_eq_some_iff.2
    ⟨_, _, _, _, _, _, _, _, hm, hn, hpaired, .inr ⟨rfl, hfound⟩⟩

/-- What the comparison of two nodes reports is a difference between them, or what it reports of
children that it passes on to. -/
theorem mismatch?_cases (ha : a.Shows va) (hb : b.Shows vb) (hx : a.node? x = some m)
    (hy : b.node? y = some n) (h : a.mismatch? x b y = some found) :
    (∃ difference, Differ a b x y difference ∧ found = ⟨x, y, difference⟩) ∨
      ∃ location c d, Passes a b x y location c d ∧ a.mismatch? c b d = some found := by
  cases hd : (m.kind.map a.names.lookup fun _ => ()).difference?
    (n.kind.map b.names.lookup fun _ => ()) with
  | some difference =>
    rw [mismatch?_of_difference ha hb hx hy hd] at h
    cases h
    rcases difference?_eq_some_iff.1 hd with
      ⟨hne, rfl⟩ | ⟨ht, shared, p, rest, q, rest', hm, hn, hne, rfl⟩
    · exact .inl ⟨_, .tags hx hy hne, rfl⟩
    · exact .inl ⟨_, .attributes hx hy ht hm hn hne, rfl⟩
  | none =>
    obtain ⟨ht, hattributes⟩ := difference?_eq_none_iff.1 hd
    rw [mismatch?_of_attributes ha hb hx hy ht hattributes] at h
    split at h
    next hne =>
      cases h
      exact .inl ⟨_, .counts hx hy ht hattributes hne, rfl⟩
    next hcount =>
      have halike : Alike a b m n := ⟨ht, hattributes, not_not.1 hcount⟩
      obtain ⟨before, l, c, after, before', k, d, after', hm, hn, hpaired, h⟩ :=
        firstOfBoth_children_eq_some_iff.1 h
      rcases h with ⟨hne, rfl⟩ | ⟨rfl, h⟩
      · exact .inl ⟨_, .locations hx hy halike hm hn hpaired hne, rfl⟩
      · exact .inr ⟨l, c, d, .intro hx hy halike hm hn hpaired, h⟩

/-! ## The whole comparison -/

/-- The comparison passes on to children on both sides. -/
theorem Passes.mem_children (hx : a.node? x = some m) (hy : b.node? y = some n)
    {location : Location} (h : Passes a b x y location c d) :
    (location, c) ∈ m.kind.children ∧ (location, d) ∈ n.kind.children := by
  obtain ⟨hl, hr, -, hm, hn, -⟩ := h
  cases Option.some.inj (hl.symm.trans hx)
  cases Option.some.inj (hr.symm.trans hy)
  exact ⟨hm ▸ List.mem_append_right _ List.mem_cons_self,
    hn ▸ List.mem_append_right _ List.mem_cons_self⟩

/-- A reported mismatch is reached by one sequence of locations. -/
theorem exists_alongside (ha : a.Shows va) (hb : b.Shows vb) (hx : a.node? x = some m)
    (hy : b.contains y = true) (h : a.mismatch? x b y = some found) :
    ∃ path, Alongside a b x y path found.left found.right ∧
      Differ a b found.left found.right found.difference := by
  have hpresent : x ≠ .absent := NodeId.isPresent_iff.1 (isPresent_of_node? hx)
  revert y
  -- the induction is over the tree on the left, since the comparison goes down on both sides
  refine ha.linked.byOccupants (motive := fun x => x ≠ .absent → ∀ {y}, b.contains y = true →
    a.mismatch? x b y = some found → ∃ path, Alongside a b x y path found.left found.right ∧
      Differ a b found.left found.right found.difference) (fun h => absurd rfl h) ?_
    ⟨_, ha.node?_eq_some hx⟩ hpresent
  intro x m' hm' ih _ y hy h
  obtain ⟨m, hm, rfl⟩ := ha.exists_node? hm'
  obtain ⟨n, hn⟩ := contains_iff.1 hy
  rcases mismatch?_cases ha hb hm hn h with
    ⟨difference, hdiffer, rfl⟩ | ⟨location, c, d, hstep, h⟩
  · exact ⟨[], .here, hdiffer⟩
  · obtain ⟨hc, hd⟩ := hstep.mem_children hm hn
    obtain ⟨child, hchild⟩ := contains_iff.1 (ha.contains_of_mem_children hm hc)
    obtain ⟨path, hpath, hdiffer⟩ := ih c (NodeKind.mem_occupants_of_mem_children hc)
      (NodeId.isPresent_iff.1 (isPresent_of_node? hchild)) (hb.contains_of_mem_children hn hd) h
    exact ⟨location :: path, .down hstep hpath, hdiffer⟩

/-- What is reached by one sequence of locations and differs is reported. -/
theorem Alongside.mismatch?_eq_some (ha : a.Shows va) (hb : b.Shows vb) {path : List Location}
    (h : Alongside a b x y path c d) {difference : Difference}
    (hdiffer : Differ a b c d difference) : a.mismatch? x b y = some ⟨c, d, difference⟩ := by
  induction h with
  | here => exact hdiffer.mismatch?_eq ha hb
  | down step _ ih => exact step.mismatch?_eq ha hb (ih hdiffer)

/-- In arenas that operations lead to, the mismatch that is reported is the first one: the one pair
of nodes that differ and to which one sequence of locations leads, past nodes that agree and
children that match. -/
theorem reachable_mismatch?_first (ha : a.Reachable) (hb : b.Reachable)
    (hl : a.contains left = true) (hr : b.contains right = true) (found : Mismatch) :
    a.mismatch? left b right = some found ↔
      ∃ path, Alongside a b left right path found.left found.right ∧
        Differ a b found.left found.right found.difference := by
  obtain ⟨va, hva⟩ := ha.exists_shows
  obtain ⟨vb, hvb⟩ := hb.exists_shows
  obtain ⟨m, hm⟩ := contains_iff.1 hl
  constructor
  · exact exists_alongside hva hvb hm hr
  · rintro ⟨path, hpath, hdiffer⟩
    exact hpath.mismatch?_eq_some hva hvb hdiffer

/-- Two calls that differ in the operand of their second argument. The nodes were allocated in
another order and the names have other numbers on the right, none of which is reported. -/
theorem reachable_mismatch?_first_operand :
    let a := [Operation.intern "f", .intern "x", .intern "1", .alloc (.simpleName ⟨1⟩) ⟨0, 1⟩,
      .alloc (.numberLiteral ⟨3⟩) ⟨2, 3⟩, .alloc (.simpleName ⟨2⟩) ⟨6, 7⟩,
      .alloc (.prefixExpression .minus ⟨2⟩) ⟨5, 7⟩,
      .alloc (.methodInvocation .absent ⟨0⟩ [⟨1⟩, ⟨3⟩]) ⟨0, 8⟩].foldl Operation.perform .empty
    let b := [Operation.intern "1", .intern "f", .intern "y", .alloc (.simpleName ⟨3⟩) ⟨6, 7⟩,
      .alloc (.prefixExpression .minus ⟨0⟩) ⟨5, 7⟩, .alloc (.simpleName ⟨2⟩) ⟨0, 1⟩,
      .alloc (.numberLiteral ⟨1⟩) ⟨2, 3⟩,
      .alloc (.methodInvocation .absent ⟨2⟩ [⟨3⟩, ⟨1⟩]) ⟨0, 8⟩].foldl Operation.perform .empty
    a.mismatch? ⟨4⟩ b ⟨4⟩ = some ⟨⟨2⟩, ⟨0⟩, .attributes (.text "x") (.text "y")⟩ ∧
      ∃ path, Alongside a b ⟨4⟩ ⟨4⟩ path ⟨2⟩ ⟨0⟩ ∧
        Differ a b ⟨2⟩ ⟨0⟩ (.attributes (.text "x") (.text "y")) := by
  intro a b
  have hfound : a.mismatch? ⟨4⟩ b ⟨4⟩ =
      some ⟨⟨2⟩, ⟨0⟩, .attributes (.text "x") (.text "y")⟩ := by
    decide +kernel
  exact ⟨hfound, (reachable_mismatch?_first (Reachable.empty.performAll _)
    (Reachable.empty.performAll _) (by decide) (by decide) _).1 hfound⟩

end Arena

end JavaFold
