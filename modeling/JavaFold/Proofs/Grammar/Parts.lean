import JavaFold.Proofs.Grammar.Clause

/-!
# The parts of what the grammar describes

Every node of a tree that the grammar describes belongs to one of its classes (`Describes.isPart`).
The classes of expressions are kept together with their levels: what stands inside a phrase is a
phrase of another level, a name being one that binds tightest. A statement about all nodes then has
to be shown of the top node of each class only.
-/

namespace JavaFold.Grammar

variable {tree name : SourceTree} {span : Span} {kind : NodeKind String SourceTree} {depth : Nat}

/-- A tree that the grammar describes, or what stands in a child position of one. -/
inductive IsPart : SourceTree → Prop where
  | absent : IsPart .absent
  | phrase {tree : SourceTree} (depth : Nat) (level : Level) (h : Fits depth level tree) :
    IsPart tree
  | type {tree : SourceTree} {allowVoid : Bool} (h : IsType allowVoid tree) : IsPart tree
  | fragment {tree : SourceTree} (h : IsFragment tree) : IsPart tree
  | block {tree : SourceTree} (h : IsBlock IsStatement tree) : IsPart tree
  | statement {tree : SourceTree} (h : IsStatement tree) : IsPart tree
  | parameter {tree : SourceTree} (h : IsParameter tree) : IsPart tree
  | declaration {tree : SourceTree} (h : IsTypeDeclarationOf IsMember tree) : IsPart tree
  | member {tree : SourceTree} (h : IsMember tree) : IsPart tree
  | package {tree : SourceTree} (h : IsPackage tree) : IsPart tree
  | importLine {tree : SourceTree} (h : IsImport tree) : IsPart tree
  | unit {tree : SourceTree} (h : IsUnit tree) : IsPart tree

/-! ## Names, operands and optional parts -/

/-- An operand with postfix operators is an expression and so a part. -/
theorem IsPostfixed.isPart (h : IsPostfixed (Fits depth) tree) : IsPart tree :=
  .phrase (depth + 1) .unary (.postfixed h)

/-- An operand with selectors is an expression and so a part. -/
theorem IsSelected.isPart (h : IsSelected (Fits depth) tree) : IsPart tree :=
  (IsPostfixed.selected h).isPart

/-- A name that stands as an operand is an expression and so a part. -/
theorem IsName.isPart (h : IsName tree) : IsPart tree :=
  have hselected : IsSelected (Fits 0) tree := .primary (.name h)
  hselected.isPart

/-- A name of one word is a name and so a part. -/
theorem IsSimpleName.isPart (h : IsSimpleName tree) : IsPart tree :=
  (IsName.simple h).isPart

/-- An expression is a phrase of the widest level, at the depth it is read to. -/
theorem IsExpression.isPart (h : IsExpression tree) : IsPart tree := by
  obtain ⟨depth, h⟩ := h
  exact .phrase depth .expression h

/-- A declaration at the head of a loop is a part, as the statement it would be by itself. -/
theorem IsLocalDeclaration.isPart (h : IsLocalDeclaration tree) : IsPart tree :=
  .statement ⟨1, .declaration h⟩

/-- A child that may be missing is a part either way, since an absent tree is one. -/
theorem IsOptional.isPart {P : SourceTree → Prop} (h : IsOptional P tree)
    (hP : P tree → IsPart tree) : IsPart tree := by
  rcases h with rfl | h
  · exact .absent
  · exact hP h

/-! ## What stands inside expressions -/

/-- The children of a qualified name are the name before the point and the word behind it. -/
theorem IsName.child (h : IsName (.node span kind)) : ∀ c ∈ kind.occupants, IsPart c := by
  cases h with
  | simple h =>
    cases h
    simp [NodeKind.occupants, NodeKind.slots]
  | qualified span hq hn => simp [NodeKind.occupants, NodeKind.slots, hq.isPart, hn.isPart]

/-- The children of a type are a name or the type of the elements. -/
theorem IsType.child {allowVoid : Bool} (h : IsType allowVoid (.node span kind)) :
    ∀ c ∈ kind.occupants, IsPart c := by
  cases h with
  | element h =>
    cases h with
    | primitive span hv => simp [NodeKind.occupants, NodeKind.slots]
    | named span hn => simp [NodeKind.occupants, NodeKind.slots, hn.isPart]
  | array span h => simp [NodeKind.occupants, NodeKind.slots, IsPart.type h]

/-- The children of a primary are a type, an expression in parentheses, or a name with arguments. -/
theorem IsPrimary.child (h : IsPrimary (Fits depth) (.node span kind)) :
    ∀ c ∈ kind.occupants, IsPart c := by
  cases h with
  | number | character | string | boolean | null | this =>
    simp [NodeKind.occupants, NodeKind.slots]
  | typeLiteral span h => simp [NodeKind.occupants, NodeKind.slots, IsPart.type h]
  | parenthesized span h =>
    simp [NodeKind.occupants, NodeKind.slots, IsPart.phrase depth .expression h]
  | creation span typeSpan hn ha =>
    have ht : IsType false (.node typeSpan (.simpleType _)) := .element (.named typeSpan hn)
    simpa [NodeKind.occupants, NodeKind.slots, IsPart.type ht] using
      fun a hm => IsPart.phrase depth .expression (ha a hm)
  | call span hn ha =>
    simpa [NodeKind.occupants, NodeKind.slots, IsPart.absent, hn.isPart] using
      fun a hm => IsPart.phrase depth .expression (ha a hm)
  | name h => exact h.child

/-- The children of a selection are the operand, a name, and arguments or an index. -/
theorem IsSelected.child (h : IsSelected (Fits depth) (.node span kind)) :
    ∀ c ∈ kind.occupants, IsPart c := by
  cases h with
  | primary h => exact h.child
  | field span ho hno hn => simp [NodeKind.occupants, NodeKind.slots, ho.isPart, hn.isPart]
  | call span ho hn ha =>
    simpa [NodeKind.occupants, NodeKind.slots, ho.isPart, hn.isPart] using
      fun a hm => IsPart.phrase depth .expression (ha a hm)
  | element span ho hi =>
    simp [NodeKind.occupants, NodeKind.slots, ho.isPart, IsPart.phrase depth .expression hi]

/-- The child of a postfix operation is its operand. -/
theorem IsPostfixed.child (h : IsPostfixed (Fits depth) (.node span kind)) :
    ∀ c ∈ kind.occupants, IsPart c := by
  cases h with
  | selected h => exact h.child
  | operator span operator h => simp [NodeKind.occupants, NodeKind.slots, h.isPart]

/-- The children of a prefix operation or cast are unary expressions and a type. -/
theorem IsUnary.child (h : IsUnary (Fits depth) (.node span kind)) :
    ∀ c ∈ kind.occupants, IsPart c := by
  cases h with
  | operator span operator h =>
    simp [NodeKind.occupants, NodeKind.slots, IsPart.phrase depth .unary h]
  | cast span ht ho hc =>
    simp [NodeKind.occupants, NodeKind.slots, IsPart.type ht, IsPart.phrase depth .unary ho]
  | postfixed h => exact h.child

/-- The children of an infix operation are its operands, each of its own level, or an operand and a
type. -/
theorem IsBinary.child {least : Nat} (h : IsBinary (Fits depth) least (.node span kind)) :
    ∀ c ∈ kind.occupants, IsPart c := by
  cases h with
  | unary h => exact h.child
  | infixed span operator hl hp ha hr =>
    have hleft := IsPart.phrase (depth + 1) (.binary least) hl
    simp [NodeKind.occupants, NodeKind.slots, hleft, IsPart.phrase depth (.binary _) hr]
  | instanceof span hl hp ha ht =>
    have hleft := IsPart.phrase (depth + 1) (.binary least) hl
    simp [NodeKind.occupants, NodeKind.slots, hleft, IsPart.type ht]

/-- The children of a conditional are a condition and the two values. -/
theorem IsConditional.child (h : IsConditional (Fits depth) (.node span kind)) :
    ∀ c ∈ kind.occupants, IsPart c := by
  cases h with
  | binary h => exact h.child
  | choice span hc ht he =>
    have hcondition := IsPart.phrase (depth + 1) (.binary 1) hc
    simp [NodeKind.occupants, NodeKind.slots, hcondition, IsPart.phrase depth .expression ht,
      IsPart.phrase depth .conditional he]

/-- The children of an assignment are its target and its value. -/
theorem IsAssignment.child (h : IsAssignment (Fits depth) (.node span kind)) :
    ∀ c ∈ kind.occupants, IsPart c := by
  cases h with
  | conditional h => exact h.child
  | assignment span operator hl hr =>
    have hleft := IsPart.phrase (depth + 1) .conditional hl
    simp [NodeKind.occupants, NodeKind.slots, hleft, IsPart.phrase depth .expression hr]

/-- The children of an expression of any class and depth are parts: one case for each class. -/
theorem Fits.child {level : Level} (h : Fits depth level (.node span kind)) :
    ∀ c ∈ kind.occupants, IsPart c := by
  cases depth with
  | zero => exact h.elim
  | succ depth =>
    cases level with
    | expression => exact IsAssignment.child h
    | conditional => exact IsConditional.child h
    | binary least => exact IsBinary.child h
    | unary => exact IsUnary.child h

/-! ## What stands inside statements and declarations -/

/-- The children of a variable in a declaration are its name and, if it is there, its value. -/
theorem IsFragment.child (h : IsFragment (.node span kind)) : ∀ c ∈ kind.occupants, IsPart c := by
  obtain ⟨span, hn, hi⟩ := h
  simp [NodeKind.occupants, NodeKind.slots, hn.isPart, hi.isPart IsExpression.isPart]

/-- The children of a declaration at the head of a loop are a type and the variables. -/
theorem IsLocalDeclaration.child (h : IsLocalDeclaration (.node span kind)) :
    ∀ c ∈ kind.occupants, IsPart c := by
  obtain ⟨span, modifiers, ht, hne, hf⟩ := h
  simpa [NodeKind.occupants, NodeKind.slots, IsPart.type ht] using
    fun f hm => IsPart.fragment (hf f hm)

/-- What a loop starts with is a declaration or a list of expressions, and so are its trees parts.
-/
theorem IsInitializers.isPart {trees : List SourceTree} (h : IsInitializers trees) :
    ∀ tree ∈ trees, IsPart tree := by
  cases h with
  | declaration h => simpa using h.isPart
  | expressions h => exact fun e he => (h e he).isPart

section Clauses

variable {sub : SourceTree → Prop}

/-- The children of a block are its statements. -/
theorem IsBlock.child (hs : ∀ tree, sub tree → IsPart tree) (h : IsBlock sub (.node span kind)) :
    ∀ c ∈ kind.occupants, IsPart c := by
  obtain ⟨span, h⟩ := h
  simpa [NodeKind.occupants, NodeKind.slots] using fun s hm => hs s (h s hm)

/-- The children of a statement are parts if the statements inside it are: one case for each form.
-/
theorem IsStatementOf.child (hs : ∀ tree, sub tree → IsPart tree)
    (h : IsStatementOf sub (.node span kind)) : ∀ c ∈ kind.occupants, IsPart c := by
  cases h with
  | block h => exact h.child hs
  | empty | breakLoop | continueLoop => simp [NodeKind.occupants, NodeKind.slots]
  | expression span h | throwValue span h => simp [NodeKind.occupants, NodeKind.slots, h.isPart]
  | declaration h => exact h.child
  | ifThen span hc ht =>
    simp [NodeKind.occupants, NodeKind.slots, hc.isPart, hs _ ht, IsPart.absent]
  | ifThenElse span hc ht ho he =>
    simp [NodeKind.occupants, NodeKind.slots, hc.isPart, hs _ ht, hs _ he]
  | whileLoop span hc hb | doLoop span hb hc =>
    simp [NodeKind.occupants, NodeKind.slots, hc.isPart, hs _ hb]
  | forLoop span hi hc hu hb =>
    simp only [NodeKind.occupants, NodeKind.slots, List.flatMap_cons, List.flatMap_nil,
      List.forall_mem_append, List.forall_mem_singleton, List.append_nil]
    exact ⟨hi.isPart, hc.isPart IsExpression.isPart, fun u hm => (hu u hm).isPart, hs _ hb⟩
  | returnValue span h =>
    simp [NodeKind.occupants, NodeKind.slots, h.isPart IsExpression.isPart]

/-- The children of a class or interface are its name, its superclass and its members. -/
theorem IsTypeDeclarationOf.child (hs : ∀ tree, sub tree → IsPart tree)
    (h : IsTypeDeclarationOf sub (.node span kind)) : ∀ c ∈ kind.occupants, IsPart c := by
  obtain ⟨span, modifiers, interface, hn, hsuper, hm⟩ := h
  simpa [NodeKind.occupants, NodeKind.slots, hn.isPart, hsuper.isPart IsPart.type] using
    fun m hmem => hs m (hm m hmem)

/-- The children of a member are parts if the members inside it are: one case for each form. -/
theorem IsMemberOf.child (hs : ∀ tree, sub tree → IsPart tree)
    (h : IsMemberOf sub (.node span kind)) : ∀ c ∈ kind.occupants, IsPart c := by
  cases h with
  | type h => exact h.child hs
  | field span modifiers ht hne hf =>
    simpa [NodeKind.occupants, NodeKind.slots, IsPart.type ht] using
      fun f hm => IsPart.fragment (hf f hm)
  | method span modifiers hr hn hp hb =>
    simp only [NodeKind.occupants, NodeKind.slots, List.flatMap_cons, List.flatMap_nil,
      List.forall_mem_append, List.forall_mem_singleton, List.append_nil]
    exact ⟨.type hr, hn.isPart, fun p hm => .parameter (hp p hm), hb.isPart .block⟩
  | constructor span modifiers hn hp hb =>
    simp only [NodeKind.occupants, NodeKind.slots, List.flatMap_cons, List.flatMap_nil,
      List.forall_mem_append, List.forall_mem_singleton, List.append_nil]
    exact ⟨.absent, hn.isPart, fun p hm => .parameter (hp p hm), hb.isPart .block⟩

end Clauses

/-- The children of a statement of any depth are parts. -/
theorem StatementFits.child (h : StatementFits depth (.node span kind)) :
    ∀ c ∈ kind.occupants, IsPart c := by
  cases depth with
  | zero => exact h.elim
  | succ depth => exact IsStatementOf.child (fun _ hs => .statement ⟨depth, hs⟩) h

/-- The children of a member of any depth are parts. -/
theorem MemberFits.child (h : MemberFits depth (.node span kind)) :
    ∀ c ∈ kind.occupants, IsPart c := by
  cases depth with
  | zero => exact h.elim
  | succ depth => exact IsMemberOf.child (fun _ hm => .member ⟨depth, hm⟩) h

/-- The children of a parameter are its type and its name. -/
theorem IsParameter.child (h : IsParameter (.node span kind)) :
    ∀ c ∈ kind.occupants, IsPart c := by
  obtain ⟨span, modifiers, varargs, ht, hn⟩ := h
  simp [NodeKind.occupants, NodeKind.slots, IsPart.type ht, hn.isPart]

/-- The children of a compilation unit are its package, its imports and its types. -/
theorem IsUnit.child (h : IsUnit (.node span kind)) : ∀ c ∈ kind.occupants, IsPart c := by
  obtain ⟨span, hp, hi, ht⟩ := h
  simp only [NodeKind.occupants, NodeKind.slots, List.flatMap_cons, List.flatMap_nil,
    List.forall_mem_append, List.forall_mem_singleton, List.append_nil]
  exact ⟨hp.isPart .package, fun i hm => .importLine (hi i hm), fun t hm => .declaration (ht t hm)⟩

/-! ## All nodes -/

/-- The step of the walk: the children of a part are parts, whatever class it is of. -/
theorem IsPart.child (h : IsPart (.node span kind)) : ∀ c ∈ kind.occupants, IsPart c := by
  cases h with
  | phrase depth level h => exact Fits.child h
  | type h => exact h.child
  | fragment h => exact h.child
  | block h => exact h.child fun _ => .statement
  | statement h =>
    obtain ⟨depth, h⟩ := h
    exact h.child
  | parameter h => exact h.child
  | declaration h => exact h.child fun _ => .member
  | member h =>
    obtain ⟨depth, h⟩ := h
    exact h.child
  | package h =>
    obtain ⟨span, h⟩ := h
    simp [NodeKind.occupants, NodeKind.slots, h.isPart]
  | importLine h =>
    obtain ⟨span, isStatic, onDemand, h⟩ := h
    simp [NodeKind.occupants, NodeKind.slots, h.isPart]
  | unit h => exact h.child

/-- Everything inside a part is a part, by induction on the tree. -/
theorem IsPart.of_mem_subtrees (h : IsPart tree) : ∀ part ∈ tree.subtrees, IsPart part := by
  induction tree using Tree.byOccupants with
  | absent => simp
  | node info kind ih =>
    intro part hp
    rcases Tree.mem_subtrees_node.1 hp with rfl | ⟨c, hc, hp⟩
    · exact h
    · exact ih c hc (h.child c hc) part hp

/-- Every node of a tree that the grammar describes belongs to one of its classes. -/
theorem Describes.isPart {goal : Goal} (h : Describes goal tree) :
    ∀ part ∈ tree.subtrees, IsPart part := by
  cases goal with
  | compilationUnit => exact (IsPart.unit h).of_mem_subtrees
  | expression => exact (IsExpression.isPart h).of_mem_subtrees

end JavaFold.Grammar
