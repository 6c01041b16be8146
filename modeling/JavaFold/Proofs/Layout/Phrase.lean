import JavaFold.Proofs.Grammar.ReadBack.Expression
import JavaFold.Proofs.Layout.Laid

/-!
# The layout of expressions

Every expression that the grammar describes is laid out as its words, unless a member is selected
from a number: the point would go on with the number (`Tree.SelectsNoNumber`).
-/

namespace JavaFold

namespace Tree

variable {ι : Type}

/-- Whether a member is selected from a number. -/
def selectsNumber : Tree ι → Bool
  | .node _ (.fieldAccess expression _) | .node _ (.methodInvocation expression _ _) =>
    expression.tag? == some .numberLiteral
  | _ => false

/-- A tree in which no member is selected from a number. -/
def SelectsNoNumber (tree : Tree ι) : Prop :=
  ∀ subtree ∈ tree.subtrees, subtree.selectsNumber = false

/-- Where no number is selected from in a tree, none is inside a child. -/
theorem SelectsNoNumber.child {info : ι} {kind : NodeKind String (Tree ι)} {child : Tree ι}
    (h : (Tree.node info kind).SelectsNoNumber) (hc : child ∈ kind.occupants) :
    child.SelectsNoNumber :=
  fun subtree hs => h subtree (mem_subtrees_node.mpr (.inr ⟨child, hc, hs⟩))

/-- Where no number is selected from in a tree, none is at its top. -/
theorem SelectsNoNumber.top {info : ι} {kind : NodeKind String (Tree ι)}
    (h : (Tree.node info kind).SelectsNoNumber) : (Tree.node info kind).selectsNumber = false :=
  h _ (mem_subtrees_node.mpr (.inl rfl))

end Tree

namespace Grammar

variable {level : Nat} {tree name type : SourceTree} {ws ws' : List Word} {marks : List Mark}

/-- Whether a word closes what stands before it and a point does not go on with it. -/
def isFirm : Word → Bool
  | .number _ => false
  | w => w.closes

private theorem closes_of_isFirm {w : Word} (h : isFirm w = true) : w.closes = true := by
  cases w with
  | number => cases h
  | _ => exact h

private theorem abuts_of_isFirm {w : Word} (q : Punctuator) (h : isFirm w = true) :
    w.abuts (.punctuator q) = true := by
  cases w with
  | number => cases h
  | punctuator p => exact Word.abuts_of_isSolid h _
  | _ => rfl

/-- Words the last of which a point does not go on with. -/
def EndsFirm (ws : List Word) : Prop :=
  ∀ w ∈ ws.getLast?, isFirm w = true

/-- What ends firmly ends closed. -/
theorem EndsFirm.ends (h : EndsFirm ws) : EndsClosed ws := fun w hw => closes_of_isFirm (h w hw)

/-- Any punctuator may follow at once what ends firmly. -/
theorem EndsFirm.joins (h : EndsFirm ws) (q : Punctuator) {text : String} :
    ∀ w ∈ ws.getLast?, w.Joins (.text text :: marks) (.punctuator q :: ws') :=
  fun w hw => abuts_of_isFirm q (h w hw)

private theorem endsFirm_concat {w : Word} (h : isFirm w = true) (ws : List Word) :
    EndsFirm (ws ++ [w]) := by
  intro v hv
  rw [List.getLast?_concat] at hv
  cases hv
  exact h

/-- A tree that is laid out as its words, starts with a word and ends with one that closes it. -/
structure Neat (level : Nat) (tree : SourceTree) : Prop where
  laid : Laid (tree.marks level) tree.words
  ends : EndsClosed tree.words
  front : ∃ text marks, tree.marks level = .text text :: marks

/-! ## Names and types -/

/-- A name ends with a word that no punctuator is drawn into. -/
theorem IsName.endsFirm (h : IsName name) : EndsFirm name.words := by
  cases h with
  | simple h =>
    obtain ⟨span, text⟩ := h
    exact endsFirm_concat rfl []
  | qualified span hq hn =>
    obtain ⟨span', text⟩ := hn
    rw [Tree.words, Tree.words, List.append_cons]
    exact endsFirm_concat rfl _

/-- A name is laid out so that it is read back word by word. -/
theorem IsName.neat (h : IsName name) (level : Nat) : Neat level name := by
  refine ⟨?_, h.endsFirm.ends, ?_⟩
  · induction h with
    | simple h =>
      obtain ⟨span, text⟩ := h
      exact laid_text (.identifier text)
    | @qualified span qualifier name hq hn ih =>
      obtain ⟨span', text⟩ := hn
      rw [Tree.marks, Tree.words, List.append_assoc, List.singleton_append]
      exact ih.append (.word (.punctuator .dot) (laid_text (.identifier text)) rfl)
        (hq.endsFirm.joins .dot)
  · induction h with
    | simple h =>
      obtain ⟨span, text⟩ := h
      exact ⟨text, [], rfl⟩
    | qualified span hq hn ih =>
      obtain ⟨text, marks, hm⟩ := ih
      exact ⟨text, _, by rw [Tree.marks, hm]; rfl⟩

/-- A type ends with a word or a bracket, firmly. -/
theorem IsType.endsFirm {allowVoid : Bool} (h : IsType allowVoid type) : EndsFirm type.words := by
  cases h with
  | element h =>
    cases h with
    | primitive span hv => exact endsFirm_concat rfl []
    | named span hn => exact hn.endsFirm
  | array span h =>
    rw [Tree.words, List.append_cons]
    exact endsFirm_concat rfl _

/-- A type is laid out so that it is read back word by word. -/
theorem IsType.neat {allowVoid : Bool} (h : IsType allowVoid type) (level : Nat) :
    Neat level type := by
  refine ⟨?_, h.endsFirm.ends, ?_⟩
  · induction h with
    | element h =>
      cases h with
      | primitive span hv => exact laid_text (.keyword (.primitive _))
      | named span hn => exact (hn.neat level).laid
    | array span h ih =>
      rw [Tree.marks, Tree.words]
      have hright := laid_text (.punctuator .rbracket)
      exact ih.append (.word (.punctuator .lbracket) hright (joins_of_isSolid rfl hright))
        (h.endsFirm.joins .lbracket)
  · induction h with
    | element h =>
      cases h with
      | primitive span hv => exact ⟨_, [], rfl⟩
      | named span hn => exact (hn.neat level).front
    | array span h ih =>
      obtain ⟨text, marks, hm⟩ := ih
      exact ⟨text, _, by rw [Tree.marks, hm]; rfl⟩

/-! ## Rows and enclosed phrases -/

/-- Words between two punctuators that nothing goes on with. -/
theorem laid_enclosed {l r : Punctuator} (hl : l.isSolid = true) (hr : r.isSolid = true)
    {marks' : List Mark} (h : Laid marks ws) (he : EndsClosed ws) (h' : Laid marks' ws') :
    Laid (.text l.text :: (marks ++ .text r.text :: marks'))
      (.punctuator l :: (ws ++ .punctuator r :: ws')) := by
  have hright : Laid (.text r.text :: marks') (.punctuator r :: ws') :=
    .word (.punctuator r) h' (joins_of_isSolid hr h')
  have hdot : (r != .dot && r != .ellipsis) = true := by cases r <;> first | rfl | cases hr
  have hinner := h.append hright (he.joins hdot)
  exact .word (.punctuator l) hinner (joins_of_isSolid hl hinner)

/-- Phrases with commas between them. -/
theorem laid_row {form : Form} (hs : form.separator = [.text ",", .space])
    (hw : form.separatorWords = [.punctuator .comma]) {trees : List SourceTree}
    (h : ∀ t ∈ trees, Laid (form.place level t.tag? (t.marks level))
      (form.placeWords t.tag? t.words) ∧ EndsClosed (form.placeWords t.tag? t.words)) :
    Laid (Tree.marksList form level trees) (Tree.wordsRow form trees) ∧
      EndsClosed (Tree.wordsRow form trees) := by
  induction trees with
  | nil => exact ⟨.nil, nofun⟩
  | cons t trees ih =>
    obtain ⟨⟨ht, he⟩, hrest⟩ := List.forall_mem_cons.mp h
    obtain ⟨hrow, herow⟩ := ih hrest
    rw [Tree.marksList, Tree.wordsRow, hs, hw]
    cases trees with
    | nil =>
      simp only [List.isEmpty_nil, if_true, Tree.marksList, Tree.wordsRow, List.append_nil]
      exact ⟨ht, he⟩
    | cons next trees =>
      simp only [List.isEmpty_cons, Bool.false_eq_true, if_false, List.append_assoc,
        List.cons_append, List.nil_append]
      have hcomma : EndsClosed [Word.punctuator .comma] := endsClosed_concat rfl []
      exact ⟨ht.append (.word (.punctuator .comma) (.space hrow) trivial) (he.joins rfl),
        he.append (hcomma.append herow)⟩

/-- Arguments with commas between them are laid out well if each of them is. -/
theorem laid_arguments {arguments : List SourceTree} (h : ∀ a ∈ arguments, Neat level a) :
    Laid (Tree.marksList .plain level arguments) (Tree.wordsRow .plain arguments) ∧
      EndsClosed (Tree.wordsRow .plain arguments) :=
  laid_row rfl rfl fun a ha => ⟨(h a ha).laid, (h a ha).ends⟩

/-! ## Operands -/

variable {S : Phrases}

/-- The classes of the expressions inside are laid out as their words. -/
def NeatPhrases (level : Nat) (S : Phrases) : Prop :=
  ∀ l tree, S l tree → tree.SelectsNoNumber → Neat level tree

/-- Every operand but a number ends firmly; a number may draw a point into it. -/
theorem IsPrimary.endsFirm (h : IsPrimary S tree)
    (hnum : ∀ span text, tree ≠ .node span (.numberLiteral text)) : EndsFirm tree.words := by
  cases h with
  | number span text => exact absurd rfl (hnum span text)
  | character | string | null | this => exact endsFirm_concat rfl []
  | boolean span value => cases value <;> exact endsFirm_concat rfl []
  | typeLiteral span h =>
    rw [Tree.words, List.append_cons]
    exact endsFirm_concat rfl _
  | parenthesized | creation | call =>
    rw [Tree.words]
    exact endsFirm_concat rfl _
  | name h => exact h.endsFirm

/-- Every operand ends closed, a number too. -/
theorem IsPrimary.ends (h : IsPrimary S tree) : EndsClosed tree.words := by
  by_cases hnum : ∃ span text, tree = .node span (.numberLiteral text)
  · obtain ⟨span, text, rfl⟩ := hnum
    exact endsClosed_concat rfl []
  · exact (h.endsFirm fun span text he => hnum ⟨span, text, he⟩).ends

/-- An operand is laid out well if the expressions inside are. -/
theorem IsPrimary.neat (hS : NeatPhrases level S) (h : IsPrimary S tree)
    (hn : tree.SelectsNoNumber) : Neat level tree := by
  refine ⟨?_, h.ends, ?_⟩
  · cases h with
    | number span text => exact laid_text (.number text)
    | character span text => exact laid_text (.character text)
    | string span text => exact laid_text (.string text)
    | boolean span value =>
      cases value with
      | false => exact laid_text (.keyword .falseWord)
      | true => exact laid_text (.keyword .trueWord)
    | null span => exact laid_text (.keyword .nullWord)
    | this span => exact laid_text (.keyword .thisWord)
    | typeLiteral span h =>
      rw [Tree.marks, Tree.words]
      exact (h.neat level).laid.append (.word (.punctuator .dot)
          (laid_text (.keyword .classWord)) rfl)
        (h.endsFirm.joins .dot)
    | parenthesized span h =>
      have hinner := hS _ _ h (hn.child (by simp [NodeKind.occupants, NodeKind.slots]))
      rw [Tree.marks, Tree.words]
      exact laid_enclosed (l := .lparen) (r := .rparen) rfl rfl hinner.laid hinner.ends .nil
    | @creation span typeSpan name arguments hname ha =>
      obtain ⟨hargs, hends⟩ := laid_arguments fun a h =>
        hS _ _ (ha a h) (hn.child (by simp [NodeKind.occupants, NodeKind.slots, h]))
      have hrest := laid_enclosed (l := .lparen) (r := .rparen) rfl rfl hargs hends .nil
      have hall := (hname.neat level).laid.append hrest (hname.endsFirm.joins .lparen)
      simp only [Tree.marks, Tree.words, List.cons_append, List.nil_append, List.append_assoc]
      exact .word (.keyword .newWord) (.space hall) trivial
    | @call span name arguments hname ha =>
      obtain ⟨hargs, hends⟩ := laid_arguments fun a h =>
        hS _ _ (ha a h) (hn.child (by simp [NodeKind.occupants, NodeKind.slots, h]))
      have hrest := laid_enclosed (l := .lparen) (r := .rparen) rfl rfl hargs hends .nil
      have hfirm := (IsName.simple hname).endsFirm
      have hall := ((IsName.simple hname).neat level).laid.append hrest (hfirm.joins .lparen)
      simp only [Tree.marks, Tree.words, Tree.isPresent, Bool.false_eq_true, if_false,
        List.cons_append, List.nil_append, List.append_assoc]
      exact hall
    | name h => exact (h.neat level).laid
  · cases h with
    | name h => exact (h.neat level).front
    | typeLiteral span h =>
      obtain ⟨text, marks, hm⟩ := (h.neat level).front
      exact ⟨text, _, by rw [Tree.marks, hm]; rfl⟩
    | call span hname ha =>
      obtain ⟨span', text⟩ := hname
      exact ⟨text, _, rfl⟩
    | _ => exact ⟨_, _, rfl⟩

/-- A selection ends firmly unless it is a number. -/
theorem IsSelected.endsFirm (h : IsSelected S tree)
    (hnum : ∀ span text, tree ≠ .node span (.numberLiteral text)) : EndsFirm tree.words := by
  cases h with
  | primary h => exact h.endsFirm hnum
  | field span ho hno hn =>
    obtain ⟨span', text⟩ := hn
    rw [Tree.words, Tree.words, List.append_cons]
    exact endsFirm_concat rfl _
  | call | element =>
    rw [Tree.words]
    exact endsFirm_concat rfl _

/-- A selection ends closed. -/
theorem IsSelected.ends (h : IsSelected S tree) : EndsClosed tree.words := by
  cases h with
  | primary h => exact h.ends
  | field span ho hno hn => exact ((IsSelected.field span ho hno hn).endsFirm nofun).ends
  | call span ho hn ha => exact ((IsSelected.call span ho hn ha).endsFirm nofun).ends
  | element span ho hi => exact ((IsSelected.element span ho hi).endsFirm nofun).ends

/-- A selection is laid out well, as the point behind its operand is drawn into no number. -/
theorem IsSelected.neat (hR : Regular S) (hS : NeatPhrases level S) (h : IsSelected S tree)
    (hn : tree.SelectsNoNumber) : Neat level tree := by
  refine ⟨?_, h.ends, ?_⟩
  · induction h with
    | primary h => exact (h.neat hS hn).laid
    | @field span operand name ho hno hname ih =>
      have hlaid := ih (hn.child (by simp [NodeKind.occupants, NodeKind.slots]))
      have hfirm : EndsFirm operand.words := by
        refine ho.endsFirm fun span' text he => ?_
        subst he
        cases hn.top
      obtain ⟨span', text⟩ := hname
      rw [Tree.marks, Tree.words, List.append_assoc, List.singleton_append]
      exact hlaid.append (.word (.punctuator .dot) (laid_text (.identifier text)) rfl)
        (hfirm.joins .dot)
    | @call span operand name arguments ho hname ha ih =>
      have hlaid := ih (hn.child (by simp [NodeKind.occupants, NodeKind.slots]))
      have hfirm : EndsFirm operand.words := by
        refine ho.endsFirm fun span' text he => ?_
        subst he
        cases hn.top
      obtain ⟨hargs, hends⟩ := laid_arguments fun a h =>
        hS _ _ (ha a h) (hn.child (by simp [NodeKind.occupants, NodeKind.slots, h]))
      have hrest := laid_enclosed (l := .lparen) (r := .rparen) rfl rfl hargs hends .nil
      obtain ⟨span', text⟩ := hname
      simp only [Tree.marks, Tree.words, (ho.opens hR).isPresent, if_true, List.append_assoc,
        List.cons_append, List.nil_append]
      exact hlaid.append (.word (.punctuator .dot) (.word (.identifier text) hrest rfl) rfl)
        (hfirm.joins .dot)
    | @element span operand index ho hi ih =>
      have hlaid := ih (hn.child (by simp [NodeKind.occupants, NodeKind.slots]))
      have hindex := hS _ _ hi (hn.child (by simp [NodeKind.occupants, NodeKind.slots]))
      have hrest := laid_enclosed (l := .lbracket)
          (r := .rbracket) rfl rfl hindex.laid hindex.ends .nil
      simp only [Tree.marks, Tree.words, List.append_assoc, List.cons_append, List.nil_append]
      exact hlaid.append hrest (ho.ends.joins rfl)
  · induction h with
    | primary h => exact (h.neat hS hn).front
    | field span ho hno hname ih | element span ho hi ih =>
      obtain ⟨text, marks, hm⟩ := ih (hn.child (by simp [NodeKind.occupants, NodeKind.slots]))
      exact ⟨text, _, by rw [Tree.marks, hm]; rfl⟩
    | call span ho hname ha ih =>
      obtain ⟨text, marks, hm⟩ := ih (hn.child (by simp [NodeKind.occupants, NodeKind.slots]))
      exact ⟨text, _, by rw [Tree.marks, if_pos (ho.opens hR).isPresent, hm]; rfl⟩

/-- A postfix operation is laid out well. -/
theorem IsPostfixed.neat (hR : Regular S) (hS : NeatPhrases level S) (h : IsPostfixed S tree)
    (hn : tree.SelectsNoNumber) : Neat level tree := by
  induction h with
  | selected h => exact h.neat hR hS hn
  | @operator span operator operand h ih =>
    have hop := ih (hn.child (by simp [NodeKind.occupants, NodeKind.slots]))
    have hsolid : operator.punctuator.isSolid = true := by cases operator <;> rfl
    refine ⟨?_, endsClosed_concat (w := .punctuator operator.punctuator) hsolid _, ?_⟩
    · rw [Tree.marks, Tree.words, ← operator.text_punctuator]
      exact hop.laid.append (laid_text (.punctuator operator.punctuator))
        (hop.ends.joins (by cases operator <;> rfl))
    · obtain ⟨text, marks, hm⟩ := hop.front
      exact ⟨text, _, by rw [Tree.marks, hm]; rfl⟩

/-! ## Operators before an operand -/

/-- An expression starts with an operator only if it applies that operator. -/
def FrontsPrefix (tree : SourceTree) : Prop :=
  ∀ operator : PrefixOperator, headKind tree.words = .punctuator operator.punctuator →
    tree.prefixOperator? = some operator

private theorem IsUnary.frontsPrefix (hR : Regular S) (h : IsUnary S tree) : FrontsPrefix tree := by
  intro operator hhead
  cases h with
  | operator span operator' h =>
    have hsome := Punctuator.prefixOperator?_eq_some.mpr (TokenKind.punctuator.inj hhead)
    rw [Punctuator.prefixOperator?_eq_some.mpr rfl] at hsome
    exact hsome
  | cast span ht ho hc => cases operator <;> cases hhead
  | postfixed h =>
    have hfront : PlainFront (tree.words ++ []) := h.plainFront hR rfl
    have hplain := hfront.1
    rw [List.append_nil, hhead, TokenKind.punctuator?, Option.bind_some,
      Punctuator.prefixOperator?_eq_some.mpr rfl] at hplain
    cases hplain

private theorem abuts_prefix {outer inner : PrefixOperator} (h : outer.gluesTo inner = false) :
    (Word.punctuator outer.punctuator).abuts (.punctuator inner.punctuator) = true := by
  revert h
  cases outer <;> cases inner <;> decide

/-- An operator can stand right before its operand unless the two run together. -/
theorem joins_operand {operator : PrefixOperator} (hop : Neat level tree) (ho : Opens tree)
    (hf : FrontsPrefix tree) (hg : ¬ tree.prefixOperator?.any operator.gluesTo = true) :
    (Word.punctuator operator.punctuator).Joins (tree.marks level) tree.words := by
  obtain ⟨text, marks, hm⟩ := hop.front
  have hlaid := hop.laid
  have hhead := ho.head
  rw [FrontsPrefix] at hf
  rw [hm] at hlaid ⊢
  generalize tree.words = ws at hlaid hhead hf ⊢
  cases hlaid with
  | word v hlaid hj =>
    show (Word.punctuator operator.punctuator).abuts v = true
    cases v with
    | punctuator q =>
      by_cases hq : q = .lparen
      · subst hq
        cases operator <;> decide
      · have hsome : q.prefixOperator?.isSome = true := by
          cases q <;> first | exact hhead | exact absurd rfl hq
        obtain ⟨inner, hinner⟩ := Option.isSome_iff_exists.mp hsome
        have hq := Punctuator.prefixOperator?_eq_some.mp hinner
        subst hq
        rw [hf inner rfl] at hg
        exact abuts_prefix (by simpa using hg)
    | number => cases operator <;> rfl
    | _ => cases operator <;> rfl

/-- A prefix operation or cast is laid out well: operators that would run into one are kept apart.
-/
theorem IsUnary.neat (hR : Regular S) (hS : NeatPhrases level S)
    (hF : ∀ tree, S .unary tree → FrontsPrefix tree) (h : IsUnary S tree)
    (hn : tree.SelectsNoNumber) : Neat level tree := by
  cases h with
  | @operator span operator operand h =>
    have hop := hS _ _ h (hn.child (by simp [NodeKind.occupants, NodeKind.slots]))
    have hopens := hR _ _ h
    refine ⟨?_, hop.ends.cons hopens.words_ne_nil _, ⟨_, _, by rw [Tree.marks]; rfl⟩⟩
    rw [Tree.marks, Tree.words, ← operator.text_punctuator, Tree.operatorGap]
    split
    next hg => exact .word (.punctuator operator.punctuator) (.space hop.laid) trivial
    next hg =>
      exact .word (.punctuator operator.punctuator) hop.laid (joins_operand hop hopens (hF _ h) hg)
  | @cast span type operand ht ho hc =>
    have hop := hS _ _ ho (hn.child (by simp [NodeKind.occupants, NodeKind.slots]))
    refine ⟨?_, ?_, ⟨_, _, by rw [Tree.marks]; rfl⟩⟩
    · simp only [Tree.marks, Tree.words, List.append_assoc, List.cons_append, List.nil_append]
      exact laid_enclosed (l := .lparen) (r := .rparen) rfl rfl (ht.neat level).laid
        ht.endsFirm.ends (.space hop.laid)
    · rw [Tree.words]
      exact ht.endsFirm.ends.cons ht.words_ne_nil _ |>.append
        (hop.ends.cons (hR _ _ ho).words_ne_nil _)
  | postfixed h => exact h.neat hR hS hn

/-! ## Operators between operands -/

/-- Two phrases with an operator between them. -/
theorem Neat.joined {left right : SourceTree} (hl : Neat level left) (hr : Neat level right)
    (hne : right.words ≠ []) (w : Word) (hm : tree.marks level =
      left.marks level ++ [.space, .text w.text, .space] ++ right.marks level)
    (hw : tree.words = left.words ++ w :: right.words) : Neat level tree := by
  refine ⟨?_, ?_, ?_⟩
  · rw [hm, hw, List.append_assoc]
    exact hl.laid.append (.space (.word w (.space hr.laid) trivial)) fun _ _ => trivial
  · rw [hw]
    exact hl.ends.append (hr.ends.cons hne w)
  · obtain ⟨text, marks, hf⟩ := hl.front
    exact ⟨text, _, by rw [hm, hf]; rfl⟩

/-- An infix operation is laid out well, with blanks on both sides of the operator. -/
theorem IsBinary.neat {least : Nat} (hR : Regular S) (hS : NeatPhrases level S)
    (hF : ∀ tree, S .unary tree → FrontsPrefix tree) (h : IsBinary S least tree)
    (hn : tree.SelectsNoNumber) : Neat level tree := by
  induction h with
  | unary h => exact h.neat hR hS hF hn
  | infixed span operator hl hp ha hr ih =>
    have hleft := ih (hn.child (by simp [NodeKind.occupants, NodeKind.slots]))
    have hright := hS _ _ hr (hn.child (by simp [NodeKind.occupants, NodeKind.slots]))
    refine hleft.joined hright (hR _ _ hr).words_ne_nil (.punctuator operator.punctuator) ?_ ?_
    · rw [Tree.marks, Word.text, operator.text_punctuator]
    · rw [Tree.words]
  | instanceof span hl hp ha ht ih =>
    have hleft := ih (hn.child (by simp [NodeKind.occupants, NodeKind.slots]))
    refine hleft.joined (ht.neat level) ht.words_ne_nil (.keyword .instanceofWord) ?_ ?_
    · rw [Tree.marks]; rfl
    · rw [Tree.words]

/-- A conditional is laid out well. -/
theorem IsConditional.neat (hR : Regular S) (hS : NeatPhrases level S)
    (hF : ∀ tree, S .unary tree → FrontsPrefix tree) (h : IsConditional S tree)
    (hn : tree.SelectsNoNumber) : Neat level tree := by
  cases h with
  | binary h => exact h.neat hR hS hF hn
  | @choice span condition thenExpression elseExpression hc ht he =>
    have h1 := hc.neat hR hS hF (hn.child (by simp [NodeKind.occupants, NodeKind.slots]))
    have h2 := hS _ _ ht (hn.child (by simp [NodeKind.occupants, NodeKind.slots]))
    have h3 := hS _ _ he (hn.child (by simp [NodeKind.occupants, NodeKind.slots]))
    refine ⟨?_, ?_, ?_⟩
    · simp only [Tree.marks, Tree.words, List.append_assoc, List.cons_append, List.nil_append]
      have hcolon := Laid.word (.punctuator .colon) (.space h3.laid) trivial
      have hthen := h2.laid.append (.space hcolon) fun _ _ => trivial
      exact h1.laid.append (.space (.word (.punctuator .question) (.space hthen) trivial))
        fun _ _ => trivial
    · rw [Tree.words]
      exact EndsClosed.append (h1.ends.append (h2.ends.cons (hR _ _ ht).words_ne_nil _))
        (h3.ends.cons (hR _ _ he).words_ne_nil _)
    · obtain ⟨text, marks, hm⟩ := h1.front
      exact ⟨text, _, by rw [Tree.marks, hm]; rfl⟩

/-- An assignment is laid out well. -/
theorem IsAssignment.neat (hR : Regular S) (hS : NeatPhrases level S)
    (hF : ∀ tree, S .unary tree → FrontsPrefix tree) (h : IsAssignment S tree)
    (hn : tree.SelectsNoNumber) : Neat level tree := by
  cases h with
  | conditional h => exact h.neat hR hS hF hn
  | assignment span operator hl hr =>
    have hleft := hl.neat hR hS hF (hn.child (by simp [NodeKind.occupants, NodeKind.slots]))
    have hright := hS _ _ hr (hn.child (by simp [NodeKind.occupants, NodeKind.slots]))
    refine hleft.joined hright (hR _ _ hr).words_ne_nil (.punctuator operator.punctuator) ?_ ?_
    · rw [Tree.marks, Word.text, operator.text_punctuator]
    · rw [Tree.words]

private theorem frontsPrefix_fits (depth : Nat) (h : Fits depth .unary tree) :
    FrontsPrefix tree := by
  cases depth with
  | zero => exact h.elim
  | succ depth => exact IsUnary.frontsPrefix (regular_fits depth) h

private theorem neatPhrases_fits (depth : Nat) : NeatPhrases level (Fits depth) := by
  induction depth with
  | zero => exact fun _ _ h => h.elim
  | succ depth ih =>
    have hR := regular_fits depth
    have hF : ∀ tree, Fits depth .unary tree → FrontsPrefix tree :=
      fun _ h => frontsPrefix_fits depth h
    intro l tree h hn
    cases l with
    | expression => exact IsAssignment.neat hR ih hF h hn
    | conditional => exact IsConditional.neat hR ih hF h hn
    | binary least => exact IsBinary.neat hR ih hF h hn
    | unary => exact IsUnary.neat hR ih hF h hn

/-- An expression is laid out as its words. -/
theorem IsExpression.neat (h : IsExpression tree) (hn : tree.SelectsNoNumber) (level : Nat) :
    Neat level tree := by
  obtain ⟨depth, h⟩ := h
  exact neatPhrases_fits depth _ _ h hn

end Grammar

end JavaFold
