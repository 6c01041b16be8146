import JavaFold.Proofs.Grammar.Clause

/-!
# Nothing is missing in what the grammar describes

Every class of trees of the grammar consists of complete trees: a child that a node has to have is
there, and so is every element of a list. As the classes are given the classes of the trees inside,
the statement is shown of a class under the assumption that it holds inside, and then of all depths.
-/

namespace JavaFold.Grammar

open JavaFold.Tree

variable {tree name type : SourceTree} {sub : Phrases}

/-- A name of one word has no children that could be missing. -/
theorem IsSimpleName.complete (h : IsSimpleName tree) : tree.Complete := by
  obtain ⟨span, text⟩ := h
  exact .of_slots (by simp [NodeKind.slots])

/-- Both sides of every point in a name are there. -/
theorem IsName.complete (h : IsName tree) : tree.Complete := by
  induction h with
  | simple h => exact h.complete
  | qualified span hq hn ih =>
    exact .of_slots (by simp [NodeKind.slots, SlotComplete, ih, hn.complete])

/-- Every type has its name or the type of its elements. -/
theorem IsType.complete {allowVoid : Bool} (h : IsType allowVoid tree) : tree.Complete := by
  induction h with
  | element h =>
    cases h with
    | primitive span hv => exact .of_slots (by simp [NodeKind.slots])
    | named span hn => exact .of_slots (by simp [NodeKind.slots, SlotComplete, hn.complete])
  | array span h ih => exact .of_slots (by simp [NodeKind.slots, SlotComplete, ih])

private theorem IsOptional.complete_or {P : SourceTree → Prop} (h : IsOptional P tree)
    (hP : P tree → tree.Complete) : tree.Complete ∨ tree = .absent :=
  h.symm.imp_left hP

/-! ## Expressions -/

/-- Classes of complete trees. -/
def CompletePhrases (sub : Phrases) : Prop :=
  ∀ level tree, sub level tree → tree.Complete

/-- A primary is complete if the expressions inside its parentheses and among its arguments are. An
unqualified call may go without an operand, whose slot is an optional one. -/
theorem IsPrimary.complete (hs : CompletePhrases sub) (h : IsPrimary sub tree) :
    tree.Complete := by
  cases h with
  | number | character | string | boolean | null | this =>
    exact .of_slots (by simp [NodeKind.slots])
  | typeLiteral span h => exact .of_slots (by simp [NodeKind.slots, SlotComplete, h.complete])
  | parenthesized span h =>
    exact .of_slots (by simp [NodeKind.slots, SlotComplete, hs _ _ h])
  | creation span typeSpan hn ha =>
    have ht : IsType false (.node typeSpan (.simpleType _)) := .element (.named typeSpan hn)
    refine .of_slots ?_
    simpa [NodeKind.slots, SlotComplete, ht.complete] using fun a hm => hs _ _ (ha a hm)
  | call span hn ha =>
    refine .of_slots ?_
    simpa [NodeKind.slots, SlotComplete, NodeKind.tag, Tag.isOptional, hn.complete] using
      fun a hm => hs _ _ (ha a hm)
  | name h => exact h.complete

/-- Every selector has its operand, by induction on how many there are. -/
theorem IsSelected.complete (hs : CompletePhrases sub) (h : IsSelected sub tree) :
    tree.Complete := by
  induction h with
  | primary h => exact h.complete hs
  | field span ho hno hn ih =>
    exact .of_slots (by simp [NodeKind.slots, SlotComplete, ih, hn.complete])
  | call span ho hn ha ih =>
    refine .of_slots ?_
    simpa [NodeKind.slots, SlotComplete, ih, hn.complete] using fun a hm => hs _ _ (ha a hm)
  | element span ho hi ih =>
    exact .of_slots (by simp [NodeKind.slots, SlotComplete, ih, hs _ _ hi])

/-- Every postfix operator has its operand, by induction on how many there are. -/
theorem IsPostfixed.complete (hs : CompletePhrases sub) (h : IsPostfixed sub tree) :
    tree.Complete := by
  induction h with
  | selected h => exact h.complete hs
  | operator span operator h ih => exact .of_slots (by simp [NodeKind.slots, SlotComplete, ih])

/-- A prefix operator or cast has its operand. -/
theorem IsUnary.complete (hs : CompletePhrases sub) (h : IsUnary sub tree) : tree.Complete := by
  cases h with
  | operator span operator h =>
    exact .of_slots (by simp [NodeKind.slots, SlotComplete, hs _ _ h])
  | cast span ht ho hc =>
    exact .of_slots (by simp [NodeKind.slots, SlotComplete, ht.complete, hs _ _ ho])
  | postfixed h => exact h.complete hs

/-- Both operands of every infix operator are there, by induction on the chain to the left. -/
theorem IsBinary.complete {least : Nat} (hs : CompletePhrases sub) (h : IsBinary sub least tree) :
    tree.Complete := by
  induction h with
  | unary h => exact h.complete hs
  | infixed span operator hl hp ha hr ih =>
    exact .of_slots (by simp [NodeKind.slots, SlotComplete, ih, hs _ _ hr])
  | instanceof span hl hp ha ht ih =>
    exact .of_slots (by simp [NodeKind.slots, SlotComplete, ih, ht.complete])

/-- A conditional has its condition and both values. -/
theorem IsConditional.complete (hs : CompletePhrases sub) (h : IsConditional sub tree) :
    tree.Complete := by
  cases h with
  | binary h => exact h.complete hs
  | choice span hc ht he =>
    exact .of_slots (by simp [NodeKind.slots, SlotComplete, hc.complete hs, hs _ _ ht, hs _ _ he])

/-- An assignment has its target and its value. -/
theorem IsAssignment.complete (hs : CompletePhrases sub) (h : IsAssignment sub tree) :
    tree.Complete := by
  cases h with
  | conditional h => exact h.complete hs
  | assignment span operator hl hr =>
    exact .of_slots (by simp [NodeKind.slots, SlotComplete, hl.complete hs, hs _ _ hr])

private theorem completePhrases_fits (depth : Nat) : CompletePhrases (Fits depth) := by
  induction depth with
  | zero => exact fun _ _ h => h.elim
  | succ depth ih =>
    intro level tree h
    cases level with
    | expression => exact IsAssignment.complete ih h
    | conditional => exact IsConditional.complete ih h
    | binary least => exact IsBinary.complete ih h
    | unary => exact IsUnary.complete ih h

/-- Expressions of every class and depth are complete, by induction on the depth. -/
theorem IsExpression.complete (h : IsExpression tree) : tree.Complete := by
  obtain ⟨depth, h⟩ := h
  exact completePhrases_fits depth _ _ h

/-! ## Statements -/

/-- A variable has its name; its value may be missing, and its slot says so. -/
theorem IsFragment.complete (h : IsFragment tree) : tree.Complete := by
  obtain ⟨span, hn, hi⟩ := h
  refine .of_slots ?_
  simp [NodeKind.slots, SlotComplete, NodeKind.tag, Tag.isOptional, hn.complete,
    hi.complete_or IsExpression.complete]

/-- A declaration at the head of a loop has its type and no missing variable. -/
theorem IsLocalDeclaration.complete (h : IsLocalDeclaration tree) : tree.Complete := by
  obtain ⟨span, modifiers, ht, hne, hf⟩ := h
  refine .of_slots ?_
  simpa [NodeKind.slots, SlotComplete, ht.complete] using fun f hm => (hf f hm).complete

/-- No tree among those that a loop starts with is missing. -/
theorem IsInitializers.complete {trees : List SourceTree} (h : IsInitializers trees) :
    ∀ tree ∈ trees, tree.Complete := by
  cases h with
  | declaration h => simpa using h.complete
  | expressions h => exact fun e he => (h e he).complete

section Statements

variable {sub : SourceTree → Prop}

/-- No statement of a block is missing if the statements are complete. -/
theorem IsBlock.complete (hs : ∀ tree, sub tree → tree.Complete) (h : IsBlock sub tree) :
    tree.Complete := by
  obtain ⟨span, h⟩ := h
  exact .of_slots (by simpa [NodeKind.slots, SlotComplete] using fun s hm => hs s (h s hm))

/-- A statement is complete if the statements inside it are. What may be missing is a value of a
return, an `else`, and the parts of the head of a loop. -/
theorem IsStatementOf.complete (hs : ∀ tree, sub tree → tree.Complete)
    (h : IsStatementOf sub tree) : tree.Complete := by
  cases h with
  | block h => exact h.complete hs
  | empty | breakLoop | continueLoop => exact .of_slots (by simp [NodeKind.slots])
  | expression span h | throwValue span h =>
    exact .of_slots (by simp [NodeKind.slots, SlotComplete, h.complete])
  | declaration h => exact h.complete
  | ifThen span hc ht =>
    refine .of_slots ?_
    simp [NodeKind.slots, SlotComplete, NodeKind.tag, Tag.isOptional, hc.complete, hs _ ht]
  | ifThenElse span hc ht ho he =>
    exact .of_slots (by simp [NodeKind.slots, SlotComplete, hc.complete, hs _ ht, hs _ he])
  | whileLoop span hc hb =>
    exact .of_slots (by simp [NodeKind.slots, SlotComplete, hc.complete, hs _ hb])
  | doLoop span hb hc =>
    exact .of_slots (by simp [NodeKind.slots, SlotComplete, hc.complete, hs _ hb])
  | forLoop span hi hc hu hb =>
    refine .of_slots ?_
    simpa [NodeKind.slots, SlotComplete, NodeKind.tag, Tag.isOptional,
      hc.complete_or IsExpression.complete, hs _ hb] using
      And.intro hi.complete fun u hm => (hu u hm).complete
  | returnValue span h =>
    refine .of_slots ?_
    simp [NodeKind.slots, SlotComplete, NodeKind.tag, Tag.isOptional,
      h.complete_or IsExpression.complete]

/-- Statements of every depth are complete, by induction on the depth. -/
theorem StatementFits.complete {depth : Nat} (h : StatementFits depth tree) : tree.Complete := by
  induction depth generalizing tree with
  | zero => exact h.elim
  | succ depth ih => exact IsStatementOf.complete (fun _ => ih) h

/-- A statement is complete, whatever its depth. -/
theorem IsStatement.complete (h : IsStatement tree) : tree.Complete := by
  obtain ⟨depth, h⟩ := h
  exact h.complete

/-! ## Declarations -/

/-- A parameter has its type and its name. -/
theorem IsParameter.complete (h : IsParameter tree) : tree.Complete := by
  obtain ⟨span, modifiers, varargs, ht, hn⟩ := h
  exact .of_slots (by simp [NodeKind.slots, SlotComplete, ht.complete, hn.complete])

/-- A class or interface has its name and no missing member; only its superclass is optional. -/
theorem IsTypeDeclarationOf.complete (hs : ∀ tree, sub tree → tree.Complete)
    (h : IsTypeDeclarationOf sub tree) : tree.Complete := by
  obtain ⟨span, modifiers, interface, hn, hsuper, hm⟩ := h
  refine .of_slots ?_
  simpa [NodeKind.slots, SlotComplete, NodeKind.tag, Tag.isOptional, hn.complete,
    hsuper.complete_or IsType.complete] using fun m hmem => hs m (hm m hmem)

/-- A member is complete if the members inside it are. A method may go without a body. -/
theorem IsMemberOf.complete (hs : ∀ tree, sub tree → tree.Complete) (h : IsMemberOf sub tree) :
    tree.Complete := by
  have hblock {body : SourceTree} (hb : IsOptional (IsBlock IsStatement) body) :
      body.Complete ∨ body = .absent :=
    hb.complete_or (IsBlock.complete fun _ => IsStatement.complete)
  cases h with
  | type h => exact h.complete hs
  | field span modifiers ht hne hf =>
    refine .of_slots ?_
    simpa [NodeKind.slots, SlotComplete, ht.complete] using fun f hm => (hf f hm).complete
  | method span modifiers hr hn hp hb =>
    refine .of_slots ?_
    simpa [NodeKind.slots, SlotComplete, NodeKind.tag, Tag.isOptional, hr.complete, hn.complete,
      hblock hb] using fun p hm => (hp p hm).complete
  | constructor span modifiers hn hp hb =>
    refine .of_slots ?_
    simpa [NodeKind.slots, SlotComplete, NodeKind.tag, Tag.isOptional, hn.complete, hblock hb]
      using fun p hm => (hp p hm).complete

end Statements

/-- Members of every depth are complete, by induction on the depth. -/
theorem MemberFits.complete {depth : Nat} (h : MemberFits depth tree) : tree.Complete := by
  induction depth generalizing tree with
  | zero => exact h.elim
  | succ depth ih => exact IsMemberOf.complete (fun _ => ih) h

/-- A member is complete, whatever its depth. -/
theorem IsMember.complete (h : IsMember tree) : tree.Complete := by
  obtain ⟨depth, h⟩ := h
  exact h.complete

/-- A package declaration has its name. -/
theorem IsPackage.complete (h : IsPackage tree) : tree.Complete := by
  obtain ⟨span, h⟩ := h
  exact .of_slots (by simp [NodeKind.slots, SlotComplete, h.complete])

/-- An import has its name. -/
theorem IsImport.complete (h : IsImport tree) : tree.Complete := by
  obtain ⟨span, isStatic, onDemand, h⟩ := h
  exact .of_slots (by simp [NodeKind.slots, SlotComplete, h.complete])

/-- A compilation unit may go without a package, and none of its imports and types is missing. -/
theorem IsUnit.complete (h : IsUnit tree) : tree.Complete := by
  obtain ⟨span, hp, hi, ht⟩ := h
  refine .of_slots ?_
  simpa [NodeKind.slots, SlotComplete, NodeKind.tag, Tag.isOptional,
    hp.complete_or IsPackage.complete] using And.intro (fun i hm => (hi i hm).complete)
      fun t hm => (ht t hm).complete fun _ => IsMember.complete

/-- Nothing is missing in a tree that the grammar describes. -/
theorem Describes.complete {goal : Goal} (h : Describes goal tree) : tree.Complete := by
  cases goal with
  | compilationUnit => exact IsUnit.complete h
  | expression => exact IsExpression.complete h

end JavaFold.Grammar
