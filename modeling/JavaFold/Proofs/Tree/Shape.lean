import JavaFold.Proofs.Node.Slots
import Mathlib.Algebra.GroupWithZero.Nat
import Mathlib.Data.List.Perm.Basic

/-!
# The shape of trees

Induction over a tree goes through the occupants of the child positions, so that a statement about
all 44 kinds has one case for nodes (`Tree.byOccupants`). The parts of a tree are its subtrees, and
a tree is compared with another one up to what the nodes carry by `Tree.mapInfo`.
-/

namespace JavaFold

namespace NodeKind

variable {τ σ α β : Type}

/-- The occupants of a kind whose children are mapped are the mapped occupants. -/
theorem occupants_map (text : τ → σ) (child : α → β) (kind : NodeKind τ α) :
    (kind.map text child).occupants = kind.occupants.map child := by
  cases kind <;> simp [map, traverse, Id.run, pure, bind, occupants, slots]

@[simp] theorem get?_map (text : τ → σ) (child : α → β) (kind : NodeKind τ α)
    (location : Location) :
    (kind.map text child).get? location = (kind.get? location).map child := by
  ext c
  cases location with
  | single property =>
    rw [get?_single, slots_map, List.mem_map, Option.map_eq_some_iff]
    constructor
    · rintro ⟨⟨p, s⟩, hs, he⟩
      cases s <;> simp_all [Slot.update]
      obtain ⟨rfl, rfl⟩ := he
      exact ⟨_, get?_single.2 hs, rfl⟩
    · rintro ⟨d, hd, rfl⟩
      exact ⟨_, get?_single.1 hd, rfl⟩
  | element property index =>
    rw [get?_element, Option.map_eq_some_iff]
    constructor
    · rintro ⟨cs, hcs, hi⟩
      rw [slots_map, List.mem_map] at hcs
      obtain ⟨⟨p, s⟩, hs, he⟩ := hcs
      cases s <;> simp_all [Slot.update]
      obtain ⟨rfl, rfl⟩ := he
      rw [List.getElem?_map, Option.map_eq_some_iff] at hi
      obtain ⟨d, hd, rfl⟩ := hi
      exact ⟨d, get?_element.2 ⟨_, hs, hd⟩, rfl⟩
    · rintro ⟨d, hd, rfl⟩
      obtain ⟨cs, hcs, hi⟩ := get?_element.1 hd
      refine ⟨cs.map child, ?_, by rw [List.getElem?_map, hi, Option.map_some]⟩
      rw [slots_map, List.mem_map]
      exact ⟨_, hcs, rfl⟩

/-- What empty slots do not contribute to can be collected from the children alone. -/
theorem flatMap_occupants [Occupant α] (f : α → List β)
    (h : ∀ c, Occupant.isPresent c = false → f c = []) (kind : NodeKind τ α) :
    kind.occupants.flatMap f = (kind.children.map Prod.snd).flatMap f := by
  simp only [occupants, children, List.map_flatMap, List.flatMap_assoc]
  refine congrArg List.flatten (List.map_congr_left ?_)
  rintro ⟨property, s⟩ -
  cases s with
  | one c =>
    cases hc : Occupant.isPresent c with
    | false => simp [Slot.children, hc, h c hc]
    | true => simp [Slot.children, hc]
  | many cs =>
    have hsnd : (Slot.children property (.many cs)).map Prod.snd = cs := by
      apply List.ext_getElem?
      intro i
      cases hi : cs[i]? <;> simp [Slot.children, hi]
    rw [hsnd]

/-- What empty slots do not add to can be summed up over the children alone. -/
theorem sum_occupants [Occupant α] (f : α → Nat)
    (h : ∀ c, Occupant.isPresent c = false → f c = 0) (kind : NodeKind τ α) :
    (kind.occupants.map f).sum = ((kind.children.map Prod.snd).map f).sum := by
  have hlength (cs : List α) :
      (cs.map f).sum = (cs.flatMap fun c => List.replicate (f c) ()).length := by
    simp [List.length_flatMap]
  rw [hlength, hlength, flatMap_occupants]
  intro c hc
  rw [h c hc, List.replicate_zero]

/-- Replacing children by children moves none of them. -/
theorem children_map [Occupant α] [Occupant β] (text : τ → σ) {child : α → β}
    {kind : NodeKind τ α}
    (h : ∀ c ∈ kind.occupants, Occupant.isPresent (child c) = Occupant.isPresent c) :
    (kind.map text child).children = kind.children.map fun (l, c) => (l, child c) := by
  simp only [children, slots_map, List.flatMap_map, List.map_flatMap]
  refine congrArg List.flatten (List.map_congr_left ?_)
  rintro ⟨property, s⟩ hs
  cases s with
  | one c =>
    have hc := h c (mem_occupants_iff.2 ⟨_, get?_single.2 hs⟩)
    cases hp : Occupant.isPresent c <;> simp [Slot.update, Slot.children, hc, hp]
  | many cs =>
    apply List.ext_getElem?
    intro i
    cases hi : cs[i]? <;> simp [Slot.update, Slot.children, hi]

/-- Occupants that are there are the children that are listed and there. -/
theorem filter_occupants [Occupant α] (kind : NodeKind τ α) :
    kind.occupants.filter Occupant.isPresent =
      (kind.children.map Prod.snd).filter Occupant.isPresent := by
  have hfilter (cs : List α) : cs.filter Occupant.isPresent =
      cs.flatMap fun c => if Occupant.isPresent c then [c] else [] := by
    induction cs with
    | nil => rfl
    | cons c cs ih => cases hc : Occupant.isPresent c <;> simp [hc, ih]
  rw [hfilter, hfilter]
  exact flatMap_occupants _ (fun c hc => by simp [hc]) kind

end NodeKind

namespace Tree

variable {ι κ ξ : Type}

/-- Induction over a tree: a node may assume the statement of all its child positions. -/
theorem byOccupants {motive : Tree ι → Prop} (absent : motive .absent)
    (node : ∀ info kind, (∀ c ∈ kind.occupants, motive c) → motive (.node info kind)) :
    ∀ tree, motive tree
  | .absent => absent
  | .node info kind => node info kind fun c _ => byOccupants absent node c
termination_by tree => sizeOf tree
decreasing_by
  have h : c ∈ kind.occupants := by assumption
  have := NodeKind.sizeOf_lt_of_mem_occupants h
  simp only [Tree.node.sizeOf_spec]
  omega

/-- A tree with what its nodes carry replaced. -/
def mapInfo (f : ι → κ) : Tree ι → Tree κ :=
  fold .absent fun info kind => .node (f info) kind

@[simp] theorem mapInfo_absent (f : ι → κ) : mapInfo f (.absent : Tree ι) = .absent := rfl

@[simp] theorem mapInfo_node (f : ι → κ) (info : ι) (kind : NodeKind String (Tree ι)) :
    mapInfo f (.node info kind) = .node (f info) (kind.map id (mapInfo f)) :=
  fold_node _ _ info kind

@[simp] theorem mapInfo_mapInfo (g : κ → ξ) (f : ι → κ) (tree : Tree ι) :
    (tree.mapInfo f).mapInfo g = tree.mapInfo (g ∘ f) := by
  induction tree using byOccupants with
  | absent => rfl
  | node info kind ih =>
    rw [mapInfo_node, mapInfo_node, mapInfo_node, NodeKind.map_map]
    exact congrArg _ (NodeKind.map_congr fun c hc => ih c hc)

@[simp] theorem isPresent_mapInfo (f : ι → κ) (tree : Tree ι) :
    (tree.mapInfo f).isPresent = tree.isPresent := by
  cases tree <;> rfl

@[simp] theorem tag?_mapInfo (f : ι → κ) (tree : Tree ι) : (tree.mapInfo f).tag? = tree.tag? := by
  cases tree with
  | absent => rfl
  | node info kind => simp [tag?]

/-! ## Subtrees -/

/-- The nodes of a tree, each with everything below it, parents before children. -/
def subtrees : Tree ι → List (Tree ι)
  | .absent => []
  | .node info kind =>
    .node info kind :: kind.occupants.attach.flatMap fun ⟨child, _⟩ => child.subtrees
termination_by tree => sizeOf tree
decreasing_by
  have h : child ∈ kind.occupants := by assumption
  have := NodeKind.sizeOf_lt_of_mem_occupants h
  simp only [Tree.node.sizeOf_spec]
  omega

@[simp] theorem subtrees_absent : (.absent : Tree ι).subtrees = [] := by
  rw [subtrees]

@[simp] theorem subtrees_node (info : ι) (kind : NodeKind String (Tree ι)) :
    (Tree.node info kind).subtrees =
      .node info kind :: kind.occupants.flatMap subtrees := by
  rw [subtrees]
  congr 1
  conv_rhs => rw [← List.attach_map_subtype_val kind.occupants]
  rw [List.flatMap_map]

/-- A part of a tree is the tree or a part of an occupant of its top. -/
theorem mem_subtrees_node {info : ι} {kind : NodeKind String (Tree ι)} {tree : Tree ι} :
    tree ∈ (Tree.node info kind).subtrees ↔
      tree = .node info kind ∨ ∃ c ∈ kind.occupants, tree ∈ c.subtrees := by
  simp

/-- A tree that is there is a part of itself. -/
theorem self_mem_subtrees (info : ι) (kind : NodeKind String (Tree ι)) :
    .node info kind ∈ (Tree.node info kind).subtrees :=
  mem_subtrees_node.2 (.inl rfl)

/-- A part of a part is a part. -/
theorem mem_subtrees_trans {tree part inner : Tree ι} (h : part ∈ tree.subtrees)
    (hi : inner ∈ part.subtrees) : inner ∈ tree.subtrees := by
  induction tree using byOccupants with
  | absent => simp at h
  | node info kind ih =>
    rcases mem_subtrees_node.1 h with rfl | ⟨c, hc, hp⟩
    · exact hi
    · exact mem_subtrees_node.2 (.inr ⟨c, hc, ih c hc hp⟩)

@[simp] theorem subtrees_mapInfo (f : ι → κ) (tree : Tree ι) :
    (tree.mapInfo f).subtrees = tree.subtrees.map (mapInfo f) := by
  induction tree using byOccupants with
  | absent => simp
  | node info kind ih =>
    simp only [mapInfo_node, subtrees_node, NodeKind.occupants_map, List.map_cons,
      List.flatMap_map, List.map_flatMap]
    congr 1
    exact congrArg List.flatten (List.map_congr_left ih)

/-- In postorder the top comes last. -/
theorem postorder_node (info : ι) (kind : NodeKind String (Tree ι)) :
    (Tree.node info kind).postorder = kind.occupants.flatMap postorder ++ [info] := by
  rw [postorder, fold_node, NodeKind.occupants_map]
  rfl

/-- In preorder the top comes first. -/
theorem preorder_node (info : ι) (kind : NodeKind String (Tree ι)) :
    (Tree.node info kind).preorder = info :: kind.occupants.flatMap preorder := by
  rw [preorder, fold_node, NodeKind.occupants_map]
  rfl

/-- Every node has its own part of a tree. -/
theorem length_subtrees (tree : Tree ι) : tree.subtrees.length = tree.preorder.length := by
  induction tree using byOccupants with
  | absent => rw [subtrees_absent]; rfl
  | node info kind ih =>
    rw [subtrees_node, preorder_node, List.length_cons, List.length_cons, List.length_flatMap,
      List.length_flatMap, List.map_congr_left ih]

/-- The two orders go through the same nodes equally often. -/
theorem postorder_perm (tree : Tree ι) : tree.postorder.Perm tree.preorder := by
  induction tree using byOccupants with
  | absent => exact .refl _
  | node top kind ih =>
    rw [postorder_node, preorder_node]
    refine (List.perm_append_singleton _ _).trans (.cons _ ?_)
    exact List.Perm.flatMap_left _ ih

/-- What nodes carry is mapped in place. -/
theorem preorder_mapInfo (f : ι → κ) (tree : Tree ι) :
    (tree.mapInfo f).preorder = tree.preorder.map f := by
  induction tree using byOccupants with
  | absent => rfl
  | node info kind ih =>
    rw [mapInfo_node, preorder_node, preorder_node, NodeKind.occupants_map, List.map_cons,
      List.flatMap_map, List.map_flatMap]
    exact congrArg (f info :: ·.flatten) (List.map_congr_left ih)

/-! ## Trees without gaps -/

/-- Every child position of a kind that must hold something does: a single slot that is not
optional, and every place in a list. -/
structure Filled (kind : NodeKind String (Tree ι)) : Prop where
  /-- A required single slot holds a node. -/
  single : ∀ {property child}, (property, Slot.one child) ∈ kind.slots →
    kind.tag.isOptional property = false → child.isPresent = true
  /-- A list holds nodes only. -/
  row : ∀ {property children}, (property, Slot.many children) ∈ kind.slots →
    ∀ c ∈ children, c.isPresent = true

/-- A node with nothing missing in it and below it. -/
inductive Complete : Tree ι → Prop where
  /-- A node whose children are complete. -/
  | node {info : ι} {kind : NodeKind String (Tree ι)} (filled : Filled kind)
    (below : ∀ c ∈ kind.occupants, c ≠ .absent → Complete c) : Complete (.node info kind)

/-- A complete tree is not missing. -/
theorem Complete.isPresent {tree : Tree ι} (h : Complete tree) : tree.isPresent = true := by
  cases h
  rfl

/-- A child position with complete children, which may be left empty only if it is optional. -/
def SlotComplete (tag : Tag) : Property × Slot (Tree ι) → Prop
  | (property, .one child) => child.Complete ∨ child = .absent ∧ tag.isOptional property = true
  | (_, .many children) => ∀ c ∈ children, c.Complete

/-- A tree is complete if every slot of its top is. -/
theorem Complete.of_slots {info : ι} {kind : NodeKind String (Tree ι)}
    (h : ∀ slot ∈ kind.slots, SlotComplete kind.tag slot) : Complete (.node info kind) := by
  refine .node ⟨fun hs ho => ?_, fun hs c hc => (h _ hs c hc).isPresent⟩ fun c hc hne => ?_
  · rcases h _ hs with hc | ⟨-, hopt⟩
    · exact hc.isPresent
    · rw [hopt] at ho
      cases ho
  · obtain ⟨⟨property, slot⟩, hs, hm⟩ := List.mem_flatMap.1 hc
    cases slot with
    | one child =>
      cases List.mem_singleton.1 hm
      exact (h _ hs).resolve_right fun habsent => hne habsent.1
    | many children => exact h _ hs c hm

/-- What the nodes carry plays no part in whether something is missing. -/
theorem Complete.of_mapInfo {f : ι → κ} {tree : Tree ι} (h : (tree.mapInfo f).Complete) :
    tree.Complete := by
  induction tree using byOccupants with
  | absent => cases h
  | node info kind ih =>
    rw [mapInfo_node] at h
    obtain ⟨filled, below⟩ := h
    refine .node ⟨fun {property child} hs ho => ?_, fun {property children} hs c hc => ?_⟩
      fun c hc hne => ih c hc (below _ ?_ ?_)
    · have hm : (property, Slot.one (child.mapInfo f)) ∈ (kind.map id (mapInfo f)).slots := by
        rw [NodeKind.slots_map]
        exact List.mem_map_of_mem hs
      rw [← isPresent_mapInfo f]
      exact filled.single hm (by rwa [NodeKind.tag_map])
    · have hm : (property, Slot.many (children.map (mapInfo f))) ∈
          (kind.map id (mapInfo f)).slots := by
        rw [NodeKind.slots_map]
        exact List.mem_map_of_mem hs
      rw [← isPresent_mapInfo f]
      exact filled.row hm _ (List.mem_map_of_mem hc)
    · rw [NodeKind.occupants_map]
      exact List.mem_map_of_mem hc
    · cases c with
      | absent => exact absurd rfl hne
      | node info kind => rw [mapInfo_node]; exact nofun

end Tree

end JavaFold
