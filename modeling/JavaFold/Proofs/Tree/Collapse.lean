import JavaFold.Proofs.Tree.Shape
import Mathlib.Data.List.Flatten

/-!
# Parentheses around literals in trees

`Tree.collapse` takes the parentheses around literals away, children first: a parenthesized
expression becomes what it encloses if that is a literal by then. Which parentheses go is known
beforehand: those from which only parentheses lead down to a literal (`Tree.isRedex`).
-/

namespace JavaFold

/-- The tag of parentheses is that of one kind with one child. -/
theorem NodeKind.exists_of_tag_eq {τ α : Type} {kind : NodeKind τ α}
    (h : kind.tag = .parenthesizedExpression) : ∃ inner, kind = .parenthesizedExpression inner := by
  cases kind <;> first | exact ⟨_, rfl⟩ | cases h

namespace Tree

variable {ι κ : Type}

/-- Whether the top node is a literal. -/
def isLiteral (tree : Tree ι) : Bool :=
  tree.tag?.any Tag.isLiteral

/-- A node without its parentheses, if it encloses a literal. -/
def collapseNode (info : ι) : NodeKind String (Tree ι) → Tree ι
  | .parenthesizedExpression inner =>
    if inner.isLiteral then inner else .node info (.parenthesizedExpression inner)
  | kind => .node info kind

/-- A tree without the parentheses around literals, taken away children first. -/
def collapse : Tree ι → Tree ι :=
  fold .absent collapseNode

@[simp] theorem collapse_absent : collapse (.absent : Tree ι) = .absent := rfl

/-- A tree collapses from the leaves to its top. -/
theorem collapse_node (info : ι) (kind : NodeKind String (Tree ι)) :
    collapse (.node info kind) = collapseNode info (kind.map id collapse) :=
  fold_node _ _ info kind

/-- A node that is no parentheses stays. -/
theorem collapseNode_of_tag_ne {info : ι} {kind : NodeKind String (Tree ι)}
    (h : kind.tag ≠ .parenthesizedExpression) : collapseNode info kind = .node info kind := by
  cases kind <;> first | rfl | exact absurd rfl h

private theorem isPresent_collapseNode (info : ι) (kind : NodeKind String (Tree ι)) :
    (collapseNode info kind).isPresent = true := by
  by_cases h : kind.tag = .parenthesizedExpression
  · obtain ⟨inner, rfl⟩ := NodeKind.exists_of_tag_eq h
    rw [collapseNode]
    split
    next hl =>
      cases inner with
      | absent => cases hl
      | node info kind => rfl
    next => rfl
  · rw [collapseNode_of_tag_ne h, isPresent]

/-- What is there stays there. -/
@[simp] theorem isPresent_collapse (tree : Tree ι) :
    tree.collapse.isPresent = tree.isPresent := by
  cases tree with
  | absent => rfl
  | node info kind => rw [collapse_node, isPresent_collapseNode, isPresent]

/-- Whether only parentheses lead from the top down to a literal. -/
def endsInLiteral : Tree ι → Bool :=
  fold false fun _ kind =>
    match kind with
    | .parenthesizedExpression inner => inner
    | kind => kind.tag.isLiteral

/-- Whether a tree is made of parentheses that end in a literal. -/
def isRedex : Tree ι → Bool
  | .node _ (.parenthesizedExpression inner) => inner.endsInLiteral
  | _ => false

/-- Whether a tree is made of parentheses around nothing. -/
def isHole : Tree ι → Bool
  | .node _ (.parenthesizedExpression .absent) => true
  | _ => false

/-- Only parentheses are taken away. -/
theorem isRedex_of_tag_ne {info : ι} {kind : NodeKind String (Tree ι)}
    (h : kind.tag ≠ .parenthesizedExpression) : isRedex (.node info kind) = false := by
  cases kind <;> first | rfl | exact absurd rfl h

/-- Only parentheses can be empty. -/
theorem isHole_of_tag_ne {info : ι} {kind : NodeKind String (Tree ι)}
    (h : kind.tag ≠ .parenthesizedExpression) : isHole (.node info kind) = false := by
  cases kind <;> first | rfl | exact absurd rfl h

/-- The number of parentheses that end in a literal. -/
def redexes (tree : Tree ι) : Nat :=
  tree.subtrees.countP isRedex

/-- Whether some parentheses are around nothing. -/
def hasHole (tree : Tree ι) : Bool :=
  tree.subtrees.any isHole

@[simp] theorem redexes_absent : redexes (.absent : Tree ι) = 0 := by
  rw [redexes, subtrees_absent, List.countP_nil]

@[simp] theorem hasHole_absent : hasHole (.absent : Tree ι) = false := by
  rw [hasHole, subtrees_absent, List.any_nil]

/-- The parentheses to take away are those under the occupants, and the top if it is one. -/
theorem redexes_node (info : ι) (kind : NodeKind String (Tree ι)) :
    redexes (.node info kind) =
      (kind.occupants.map redexes).sum + if isRedex (.node info kind) then 1 else 0 := by
  rw [redexes, subtrees_node, List.countP_cons, List.countP_flatMap]
  rfl

private theorem redexes_node_eq_zero {info : ι} {kind : NodeKind String (Tree ι)} :
    redexes (.node info kind) = 0 ↔
      isRedex (.node info kind) = false ∧ ∀ c ∈ kind.occupants, redexes c = 0 := by
  simp only [redexes, subtrees_node, List.countP_eq_zero, List.forall_mem_cons, List.mem_flatMap,
    Bool.not_eq_true]
  refine and_congr_right fun _ => ⟨fun h c hc t ht => h t ⟨c, hc, ht⟩, ?_⟩
  rintro h t ⟨c, hc, ht⟩
  exact h c hc t ht

/-- A tree has empty parentheses at its top or under an occupant. -/
theorem hasHole_node {info : ι} {kind : NodeKind String (Tree ι)} :
    hasHole (.node info kind) = true ↔
      isHole (.node info kind) = true ∨ ∃ c ∈ kind.occupants, hasHole c = true := by
  rw [hasHole, subtrees_node, List.any_cons, Bool.or_eq_true, List.any_flatMap, List.any_eq_true]
  rfl

/-- What is left is a literal exactly if only parentheses led down to one. -/
theorem isLiteral_collapse (tree : Tree ι) : tree.collapse.isLiteral = tree.endsInLiteral := by
  induction tree using byOccupants with
  | absent => rfl
  | node info kind ih =>
    rw [collapse_node, endsInLiteral, fold_node]
    by_cases h : kind.tag = .parenthesizedExpression
    · obtain ⟨inner, rfl⟩ := NodeKind.exists_of_tag_eq h
      have hinner := ih inner (by simp [NodeKind.occupants, NodeKind.slots])
      change (collapseNode info (.parenthesizedExpression inner.collapse)).isLiteral =
        inner.endsInLiteral
      rw [← hinner, collapseNode]
      by_cases hl : inner.collapse.isLiteral = true
      · rw [if_pos hl]
      · rw [if_neg hl, Bool.eq_false_iff.2 hl]
        rfl
    · rw [collapseNode_of_tag_ne (by rwa [NodeKind.tag_map])]
      cases kind <;> first | rfl | exact absurd rfl h

/-! ## Collapsing once is enough -/

/-- A node that is no parentheses ends in a literal if it is one. -/
theorem endsInLiteral_of_tag_ne {info : ι} {kind : NodeKind String (Tree ι)}
    (h : kind.tag ≠ .parenthesizedExpression) :
    endsInLiteral (.node info kind) = kind.tag.isLiteral := by
  cases kind <;> first | rfl | exact absurd rfl h

/-- A node collapses to what it encloses or stays, its children collapsed. -/
theorem collapse_cases (info : ι) (kind : NodeKind String (Tree ι)) :
    kind.tag ≠ .parenthesizedExpression ∧
      collapse (.node info kind) = .node info (kind.map id collapse) ∨
    ∃ inner, kind = .parenthesizedExpression inner ∧
      (inner.endsInLiteral = true ∧ collapse (.node info kind) = inner.collapse ∨
        inner.endsInLiteral = false ∧
          collapse (.node info kind) = .node info (.parenthesizedExpression inner.collapse)) := by
  by_cases h : kind.tag = .parenthesizedExpression
  · obtain ⟨inner, rfl⟩ := NodeKind.exists_of_tag_eq h
    have hnode : collapse (.node info (.parenthesizedExpression inner)) =
        if inner.endsInLiteral then inner.collapse
        else .node info (.parenthesizedExpression inner.collapse) := by
      rw [← isLiteral_collapse]
      exact collapse_node info _
    refine .inr ⟨inner, rfl, ?_⟩
    rw [hnode]
    cases inner.endsInLiteral with
    | true => exact .inl ⟨rfl, if_pos rfl⟩
    | false => exact .inr ⟨rfl, if_neg Bool.false_ne_true⟩
  · refine .inl ⟨h, ?_⟩
    rw [collapse_node, collapseNode_of_tag_ne (by rwa [NodeKind.tag_map])]

/-- What leads down to a literal still does. -/
theorem endsInLiteral_collapse (tree : Tree ι) :
    tree.collapse.endsInLiteral = tree.endsInLiteral := by
  induction tree using byOccupants with
  | absent => rfl
  | node info kind ih =>
    rcases collapse_cases info kind with ⟨htag, he⟩ | ⟨inner, rfl, ⟨-, he⟩ | ⟨-, he⟩⟩
    · rw [he, endsInLiteral_of_tag_ne htag, endsInLiteral_of_tag_ne (by rwa [NodeKind.tag_map]),
        NodeKind.tag_map]
    · rw [he, ih inner (by simp [NodeKind.occupants, NodeKind.slots])]
      rfl
    · rw [he]
      exact ih inner (by simp [NodeKind.occupants, NodeKind.slots])

/-- No parentheses that end in a literal are left. -/
theorem redexes_collapse (tree : Tree ι) : tree.collapse.redexes = 0 := by
  induction tree using byOccupants with
  | absent => exact redexes_absent
  | node info kind ih =>
    rcases collapse_cases info kind with ⟨htag, he⟩ | ⟨inner, rfl, ⟨-, he⟩ | ⟨hne, he⟩⟩
    · rw [he, redexes_node_eq_zero, NodeKind.occupants_map]
      exact ⟨isRedex_of_tag_ne (by rwa [NodeKind.tag_map]), List.forall_mem_map.2 ih⟩
    · rw [he, ih inner (by simp [NodeKind.occupants, NodeKind.slots])]
    · have hnot : isRedex (.node info (.parenthesizedExpression inner.collapse)) = false :=
        (endsInLiteral_collapse inner).trans hne
      rw [he, redexes_node_eq_zero]
      refine ⟨hnot, ?_⟩
      simpa [NodeKind.occupants, NodeKind.slots] using ih inner

/-- Collapsing leaves no node in parentheses out. -/
theorem hasHole_collapse {tree : Tree ι} (h : tree.hasHole = false) :
    tree.collapse.hasHole = false := by
  induction tree using byOccupants with
  | absent => exact hasHole_absent
  | node info kind ih =>
    rw [← Bool.not_eq_true, hasHole_node, not_or] at h
    obtain ⟨htop, hbelow⟩ := h
    have hoccupant : ∀ c ∈ kind.occupants, c.collapse.hasHole = false := by
      intro c hc
      refine ih c hc (Bool.eq_false_iff.2 fun hhole => hbelow ⟨c, hc, hhole⟩)
    rcases collapse_cases info kind with ⟨htag, he⟩ | ⟨inner, rfl, ⟨-, he⟩ | ⟨-, he⟩⟩
    · rw [he, ← Bool.not_eq_true, hasHole_node, not_or, NodeKind.occupants_map,
        isHole_of_tag_ne (by rwa [NodeKind.tag_map])]
      refine ⟨Bool.false_ne_true, ?_⟩
      rintro ⟨_, hm, hhole⟩
      obtain ⟨c, hc, rfl⟩ := List.mem_map.1 hm
      rw [hoccupant c hc] at hhole
      cases hhole
    · rw [he]
      exact hoccupant inner (by simp [NodeKind.occupants, NodeKind.slots])
    · have hinner := hoccupant inner (by simp [NodeKind.occupants, NodeKind.slots])
      have hpresent : inner.collapse.isPresent = true := by
        rw [isPresent_collapse]
        cases inner with
        | absent => exact absurd rfl htop
        | node => rfl
      rw [he, ← Bool.not_eq_true, hasHole_node, not_or]
      constructor
      · cases hc : inner.collapse with
        | absent => simp [hc, isPresent] at hpresent
        | node => exact Bool.false_ne_true
      · simpa [NodeKind.occupants, NodeKind.slots] using hinner

/-- Without parentheses that end in a literal there is nothing to do. -/
theorem collapse_eq_self {tree : Tree ι} (h : tree.redexes = 0) : tree.collapse = tree := by
  induction tree using byOccupants with
  | absent => rfl
  | node info kind ih =>
    obtain ⟨htop, hbelow⟩ := redexes_node_eq_zero.1 h
    have hoccupants : kind.map id collapse = kind := by
      conv_rhs => rw [← kind.map_id]
      exact NodeKind.map_congr fun c hc => ih c hc (hbelow c hc)
    rcases collapse_cases info kind with ⟨-, he⟩ | ⟨inner, rfl, ⟨hends, -⟩ | ⟨-, he⟩⟩
    · rw [he, hoccupants]
    · cases hends.symm.trans htop
    · rw [he]
      exact congrArg (Tree.node info) hoccupants

/-- A tree that has collapsed has nothing left to take away. -/
theorem collapse_collapse (tree : Tree ι) : tree.collapse.collapse = tree.collapse :=
  collapse_eq_self (redexes_collapse tree)

/-- A tree without empty parentheses has none in its parts. -/
theorem hasHole_of_mem_subtrees {tree part : Tree ι} (h : tree.hasHole = false)
    (hp : part ∈ tree.subtrees) : part.hasHole = false :=
  List.any_eq_false.2 fun _ hi => List.any_eq_false.1 h _ (mem_subtrees_trans hp hi)

/-- Where nothing is missing, no parentheses are around nothing. -/
theorem Complete.hasHole {tree : Tree ι} (h : tree.Complete) : tree.hasHole = false := by
  induction h with
  | @node info kind filled below ih =>
    rw [← Bool.not_eq_true, hasHole_node, not_or]
    refine ⟨?_, ?_⟩
    · by_cases htag : kind.tag = .parenthesizedExpression
      · obtain ⟨inner, rfl⟩ := NodeKind.exists_of_tag_eq htag
        have hpresent : inner.isPresent = true := filled.single (List.mem_singleton.2 rfl) rfl
        cases inner with
        | absent => cases hpresent
        | node => exact Bool.false_ne_true
      · rw [isHole_of_tag_ne htag]
        exact Bool.false_ne_true
    · rintro ⟨c, hc, hhole⟩
      cases c with
      | absent => simp at hhole
      | node cinfo ckind =>
        rw [ih _ hc nofun] at hhole
        cases hhole

/-! ## What the nodes carry -/

private theorem isLiteral_mapInfo (f : ι → κ) (tree : Tree ι) :
    (tree.mapInfo f).isLiteral = tree.isLiteral :=
  congrArg (Option.any Tag.isLiteral) (tag?_mapInfo f tree)

private theorem mapInfo_collapseNode (f : ι → κ) (info : ι) (kind : NodeKind String (Tree ι)) :
    (collapseNode info kind).mapInfo f = collapseNode (f info) (kind.map id (mapInfo f)) := by
  by_cases h : kind.tag = .parenthesizedExpression
  · obtain ⟨inner, rfl⟩ := NodeKind.exists_of_tag_eq h
    change mapInfo f (if inner.isLiteral then inner else _) =
      if (inner.mapInfo f).isLiteral then inner.mapInfo f else _
    rw [isLiteral_mapInfo, apply_ite (mapInfo f), mapInfo_node]
    rfl
  · rw [collapseNode_of_tag_ne h, collapseNode_of_tag_ne (by rwa [NodeKind.tag_map]), mapInfo_node]

/-- Which parentheses go does not depend on what the nodes carry. -/
theorem collapse_mapInfo (f : ι → κ) (tree : Tree ι) :
    (tree.mapInfo f).collapse = tree.collapse.mapInfo f := by
  induction tree using byOccupants with
  | absent => rfl
  | node info kind ih =>
    rw [mapInfo_node, collapse_node, collapse_node, mapInfo_collapseNode, NodeKind.map_map,
      NodeKind.map_map]
    exact congrArg _ (NodeKind.map_congr ih)

/-- No node is added, and the nodes keep their order. -/
theorem preorder_collapse_sublist (tree : Tree ι) :
    tree.collapse.preorder.Sublist tree.preorder := by
  induction tree using byOccupants with
  | absent => exact .refl _
  | node info kind ih =>
    rcases collapse_cases info kind with ⟨-, he⟩ | ⟨inner, rfl, ⟨-, he⟩ | ⟨-, he⟩⟩
    · rw [he, preorder_node, preorder_node, NodeKind.occupants_map, List.flatMap_map]
      exact (List.Sublist.flatMap_right _ ih).cons_cons _
    · rw [he, preorder_node]
      have hinner := ih inner (by simp [NodeKind.occupants, NodeKind.slots])
      simpa [NodeKind.occupants, NodeKind.slots] using hinner.cons info
    · rw [he, preorder_node, preorder_node]
      have hinner := ih inner (by simp [NodeKind.occupants, NodeKind.slots])
      simpa [NodeKind.occupants, NodeKind.slots] using hinner

/-! ## Children that collapse alike -/

section Alike

variable {τ α : Type} {kind : NodeKind τ α} {text : τ → String} {f g : α → Tree ι} {info : ι}

/-- How a tree collapses depends on how its occupants do. -/
theorem collapse_node_congr (h : ∀ c ∈ kind.occupants, (f c).collapse = (g c).collapse) :
    collapse (.node info (kind.map text f)) = collapse (.node info (kind.map text g)) := by
  rw [collapse_node, collapse_node, NodeKind.map_map, NodeKind.map_map]
  exact congrArg _ (NodeKind.map_congr h)

/-- Whether the top is taken away depends on how its occupants collapse. -/
theorem isRedex_node_congr (h : ∀ c ∈ kind.occupants, (f c).collapse = (g c).collapse) :
    isRedex (.node info (kind.map text f)) = isRedex (.node info (kind.map text g)) := by
  by_cases htag : kind.tag = .parenthesizedExpression
  · obtain ⟨inner, rfl⟩ := NodeKind.exists_of_tag_eq htag
    change (f inner).endsInLiteral = (g inner).endsInLiteral
    rw [← isLiteral_collapse, ← isLiteral_collapse,
      h inner (by simp [NodeKind.occupants, NodeKind.slots])]
  · rw [isRedex_of_tag_ne (by rwa [NodeKind.tag_map]), isRedex_of_tag_ne
      (by rwa [NodeKind.tag_map])]

/-- Whether the top is empty depends on how its occupants collapse. -/
theorem isHole_node_congr (h : ∀ c ∈ kind.occupants, (f c).collapse = (g c).collapse) :
    isHole (.node info (kind.map text f)) = isHole (.node info (kind.map text g)) := by
  by_cases htag : kind.tag = .parenthesizedExpression
  · obtain ⟨inner, rfl⟩ := NodeKind.exists_of_tag_eq htag
    have hpresent : (f inner).isPresent = (g inner).isPresent := by
      rw [← isPresent_collapse (f inner), h inner (by simp [NodeKind.occupants, NodeKind.slots]),
        isPresent_collapse]
    have hhole (t : Tree ι) : isHole (.node info (.parenthesizedExpression t)) = !t.isPresent := by
      cases t <;> rfl
    exact (hhole _).trans ((congrArg _ hpresent).trans (hhole _).symm)
  · rw [isHole_of_tag_ne (by rwa [NodeKind.tag_map]), isHole_of_tag_ne (by rwa [NodeKind.tag_map])]

end Alike

end Tree

end JavaFold
