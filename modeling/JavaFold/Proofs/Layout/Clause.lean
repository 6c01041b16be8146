import JavaFold.Proofs.Grammar.ReadBack.Declaration
import JavaFold.Proofs.Layout.Phrase

/-!
# The layout of statements and declarations

Statements are laid out as their words, one on a line, and so are declarations. A source file ends
with a line end, or is empty.
-/

namespace JavaFold.Grammar

variable {level : Nat} {tree name type : SourceTree} {ws ws' : List Word} {marks : List Mark}

/-! ## Local declarations -/

private theorem laid_modifiers (modifiers : Modifiers) (h : Laid marks ws) :
    Laid (Tree.modifierMarks modifiers ++ marks) (modifiers.words ++ ws) := by
  rw [Tree.modifierMarks, Modifiers.keywords, Modifiers.words]
  induction modifiers.toList with
  | nil => exact h
  | cons m ms ih => exact .word (.keyword (.modifier m)) (.space ih) trivial

private theorem ends_modifiers (modifiers : Modifiers) : EndsClosed modifiers.words := by
  intro w hw
  obtain ⟨m, -, rfl⟩ := List.mem_map.mp (List.mem_of_getLast? hw)
  rfl

/-- A variable with or without its value is laid out well. -/
theorem IsFragment.laid (h : IsFragment tree) (hn : tree.SelectsNoNumber) :
    Laid (tree.marks level) tree.words ∧ EndsClosed tree.words := by
  obtain ⟨span, hname, hi⟩ := h
  have hneat := (IsName.simple hname).neat level
  rcases hi with rfl | hi
  · simp only [Tree.marks, Tree.words, Tree.isPresent, Bool.false_eq_true, if_false,
      List.append_nil]
    exact ⟨hneat.laid, hneat.ends⟩
  · have hvalue := hi.neat (hn.child (by simp [NodeKind.occupants, NodeKind.slots])) level
    simp only [Tree.marks, Tree.words, hi.opens.isPresent, if_true]
    exact ⟨hneat.laid.append (.space (.word (.punctuator .eq) (.space hvalue.laid) trivial))
      fun _ _ => trivial, hneat.ends.append (hvalue.ends.cons hi.opens.words_ne_nil _)⟩

private theorem laid_fragments (level : Nat) {fragments : List SourceTree}
    (h : ∀ f ∈ fragments, IsFragment f)
    (hn : ∀ f ∈ fragments, f.SelectsNoNumber) :
    Laid (Tree.marksList .fragment level fragments) (Tree.wordsRow .fragment fragments) ∧
      EndsClosed (Tree.wordsRow .fragment fragments) := by
  refine laid_row rfl rfl fun f hf => ?_
  have hlaid : Laid (f.marks level) f.words ∧ EndsClosed f.words := (h f hf).laid (hn f hf)
  obtain ⟨span, hname, hi⟩ := h f hf
  exact hlaid

/-- A declaration without its semicolon. -/
theorem IsLocalDeclaration.laid (level : Nat) (h : IsLocalDeclaration tree)
    (hn : tree.SelectsNoNumber) :
    ∃ marks ws, tree.marks level = marks ++ [.text ";"] ∧
      tree.words = ws ++ [.punctuator .semicolon] ∧ Laid marks ws ∧ EndsClosed ws := by
  obtain @⟨span, modifiers, type, fragments, ht, hne, hf⟩ := h
  have hrow : Laid (Tree.marksList .fragment level fragments) (Tree.wordsRow .fragment fragments) ∧
      EndsClosed (Tree.wordsRow .fragment fragments) :=
    laid_fragments level hf fun f hf => hn.child (by simp [NodeKind.occupants, NodeKind.slots, hf])
  have htype := ht.neat level
  refine ⟨_, _, by rw [Tree.marks], by rw [Tree.words], ?_, ?_⟩
  · simp only [List.append_assoc]
    exact laid_modifiers modifiers (htype.laid.append (.space hrow.1) fun _ _ => trivial)
  · exact ((ends_modifiers modifiers).append htype.ends).append hrow.2

/-! ## Statements -/

/-- A phrase with a semicolon after it. -/
theorem laid_semicolon (h : Laid marks ws) (he : EndsClosed ws) :
    Laid (marks ++ [.text ";"]) (ws ++ [.punctuator .semicolon]) :=
  h.append (laid_text (.punctuator .semicolon)) (he.joins rfl)

/-- Rows that are written one after the other, each closed by a line end. -/
theorem closed_lines {trees : List SourceTree} (h : ∀ t ∈ trees, Laid (t.marks level) t.words) :
    Closed (Tree.marksList .line level trees) (Tree.wordsRow .line trees) := by
  induction trees with
  | nil => exact closed_nil
  | cons t trees ih =>
    obtain ⟨ht, hrest⟩ := List.forall_mem_cons.mp h
    have hline : Closed (.indent level :: t.marks level ++ [.newline]) t.words :=
      ht.closed.indent level
    have hrow := hline.append (ih hrest)
    rw [Tree.marksList, Tree.wordsRow]
    cases trees <;> simpa [Form.place, Form.placeWords, Form.separator,
        Form.separatorWords] using hrow

/-- The classes of the statements inside are laid out as their words. -/
def LaidClauses (sub : SourceTree → Prop) : Prop :=
  ∀ tree level, sub tree → tree.SelectsNoNumber → Laid (tree.marks level) tree.words

variable {sub : SourceTree → Prop}

/-- A block is laid out well if its statements are. -/
theorem IsBlock.laid (hsub : LaidClauses sub) (h : IsBlock sub tree) (hn : tree.SelectsNoNumber) :
    Laid (tree.marks level) tree.words := by
  obtain ⟨span, h⟩ := h
  have hlines := closed_lines fun s hs =>
    hsub s (level + 1) (h s hs) (hn.child (by simp [NodeKind.occupants, NodeKind.slots, hs]))
  have hrest := hlines _ _ (.indent level (laid_text (.punctuator .rbrace)))
  rw [Tree.marks, Tree.words, List.append_assoc]
  exact .word (.punctuator .lbrace) (.newline hrest) trivial

/-- What a loop starts with is laid out well, without the semicolon of a declaration. -/
private theorem laid_initializers (level : Nat) {initializers : List SourceTree}
    (h : IsInitializers initializers)
    (hn : ∀ i ∈ initializers, i.SelectsNoNumber) :
    Laid (Tree.marksList .initializer level initializers)
      (Tree.wordsRow .initializer initializers) ∧
      EndsClosed (Tree.wordsRow .initializer initializers) := by
  refine laid_row rfl rfl fun i hi => ?_
  cases h with
  | declaration h =>
    cases List.mem_singleton.mp hi
    obtain ⟨marks, ws, hm, hw, hlaid, hends⟩ := IsLocalDeclaration.laid level h (hn _ hi)
    obtain ⟨span, modifiers, ht, hne, hf⟩ := h
    rw [hm, hw]
    show Laid (marks ++ [_]).dropLast (ws ++ [_]).dropLast ∧ EndsClosed (ws ++ [_]).dropLast
    rw [List.dropLast_concat, List.dropLast_concat]
    exact ⟨hlaid, hends⟩
  | expressions h =>
    have hneat := (h i hi).neat (hn i hi) level
    have hplace : Form.initializer.place level i.tag? (i.marks level) = i.marks level := by
      unfold Form.place
      split <;> first | rfl | exact absurd ‹i.tag? = _› (h i hi).tag?_ne | contradiction
    rw [hplace, placeWords_expression (h i hi)]
    exact ⟨hneat.laid, hneat.ends⟩

/-- A condition in parentheses with something after it. -/
theorem laid_condition {condition : SourceTree} (h : Neat level condition) (hr : Laid marks ws) :
    Laid (.space :: .text "(" :: (condition.marks level ++ .text ")" :: .space :: marks))
      (.punctuator .lparen :: (condition.words ++ .punctuator .rparen :: ws)) :=
  .space (laid_enclosed (l := .lparen) (r := .rparen) rfl rfl h.laid h.ends (.space hr))

/-- An expression before a semicolon, if there is one. -/
theorem laid_optional (level : Nat) {value : SourceTree} (h : IsOptional IsExpression value)
    (hn : value.SelectsNoNumber)
    (hr : Laid (.text ";" :: marks) (.punctuator .semicolon :: ws)) :
    Laid ((if value.isPresent then .space :: value.marks level else []) ++ .text ";" :: marks)
      (value.words ++ .punctuator .semicolon :: ws) := by
  rcases h with rfl | h
  · exact hr
  · have hneat := h.neat hn level
    rw [if_pos h.opens.isPresent]
    exact .space (hneat.laid.append hr (hneat.ends.joins rfl))

private theorem laid_updaters {updaters : List SourceTree} (h : ∀ u ∈ updaters, Neat level u)
    (hr : Laid (.text ")" :: marks) (.punctuator .rparen :: ws)) :
    Laid ((if updaters.isEmpty then [] else .space :: Tree.marksList .plain level updaters) ++
        .text ")" :: marks) (Tree.wordsRow .plain updaters ++ .punctuator .rparen :: ws) := by
  obtain ⟨hrow, hends⟩ := laid_arguments h
  cases updaters with
  | nil => exact hr
  | cons u updaters => exact .space (hrow.append hr (hends.joins rfl))

section

variable (span : Span) {condition thenStatement elseStatement body value : SourceTree}

private theorem laid_ifThen (hcond : Neat level condition)
    (hthen : Laid (thenStatement.marks level) thenStatement.words) :
    Laid ((Tree.node span (.ifStatement condition thenStatement .absent)).marks level)
      (Tree.node span (.ifStatement condition thenStatement .absent)).words := by
  simp only [Tree.marks, Tree.words, Tree.isPresent, Bool.false_eq_true, if_false,
    List.append_nil, List.append_assoc, List.cons_append, List.nil_append]
  exact .word (.keyword .ifWord) (laid_condition hcond hthen) trivial

/-- An alternative stands on the line on which the statement before it ends. -/
theorem laid_ifThenElse (hcond : Neat level condition)
    (hthen : Laid (thenStatement.marks level) thenStatement.words)
    (helse : Laid (elseStatement.marks level) elseStatement.words) :
    Laid ((Tree.node span (.ifStatement condition thenStatement elseStatement)).marks level)
      (Tree.node span (.ifStatement condition thenStatement elseStatement)).words := by
  have hrest : Laid (thenStatement.marks level ++ (if elseStatement.isPresent then
      [.space, .text "else", .space] ++ elseStatement.marks level else []))
      (thenStatement.words ++
        (if elseStatement.isPresent then .keyword .elseWord :: elseStatement.words else [])) := by
    split
    · exact hthen.append (.space (.word (.keyword .elseWord) (.space helse) trivial))
        fun _ _ => trivial
    · simpa using hthen
  simp only [Tree.marks, Tree.words, List.append_assoc, List.cons_append, List.nil_append]
  exact .word (.keyword .ifWord) (laid_condition hcond hrest) trivial

private theorem laid_whileLoop (hcond : Neat level condition)
    (hbody : Laid (body.marks level) body.words) :
    Laid ((Tree.node span (.whileStatement condition body)).marks level)
      (Tree.node span (.whileStatement condition body)).words := by
  simp only [Tree.marks, Tree.words, List.append_assoc, List.cons_append, List.nil_append]
  exact .word (.keyword .whileWord) (laid_condition hcond hbody) trivial

private theorem laid_doLoop (hcond : Neat level condition)
    (hbody : Laid (body.marks level) body.words) :
    Laid ((Tree.node span (.doStatement body condition)).marks level)
      (Tree.node span (.doStatement body condition)).words := by
  have hparens := laid_enclosed (l := .lparen) (r := .rparen) rfl rfl hcond.laid hcond.ends
    (laid_text (.punctuator .semicolon))
  have hwhile := Laid.word (.keyword .whileWord) (.space hparens) trivial
  simp only [Tree.marks, Tree.words, List.append_assoc, List.cons_append, List.nil_append]
  exact .word (.keyword .doWord) (.space (hbody.append (.space hwhile) fun _ _ => trivial)) trivial

/-- The three parts of the head of a `for` loop are laid out from the last one to the first. -/
theorem laid_forLoop {initializers updaters : List SourceTree} (hi : IsInitializers initializers)
    (hc : IsOptional IsExpression condition) (hu : ∀ u ∈ updaters, IsExpression u)
    (hbody : Laid (body.marks level) body.words)
    (hn : (Tree.node span (.forStatement initializers condition updaters body)).SelectsNoNumber) :
    Laid ((Tree.node span (.forStatement initializers condition updaters body)).marks level)
      (Tree.node span (.forStatement initializers condition updaters body)).words := by
  have hinit := laid_initializers level hi fun i h =>
    hn.child (by simp [NodeKind.occupants, NodeKind.slots, h])
  have hclose := Laid.word (.punctuator .rparen) (.space hbody) trivial
  have hupdaters := laid_updaters (fun u h => (hu u h).neat
    (hn.child (by simp [NodeKind.occupants, NodeKind.slots, h])) level) hclose
  have hsecond := Laid.word (.punctuator .semicolon) hupdaters (joins_of_isSolid rfl hupdaters)
  have hcondition := laid_optional level hc
    (hn.child (by simp [NodeKind.occupants, NodeKind.slots])) hsecond
  have hfirst := Laid.word (.punctuator .semicolon) hcondition (joins_of_isSolid rfl hcondition)
  have hhead := hinit.1.append hfirst (hinit.2.joins rfl)
  have hopen := Laid.word (.punctuator .lparen) hhead (joins_of_isSolid rfl hhead)
  simp only [Tree.marks, Tree.words, List.append_assoc, List.cons_append, List.nil_append]
  exact .word (.keyword .forWord) (.space hopen) trivial

/-- Without a value, the semicolon follows the keyword at once. -/
theorem laid_returnStatement (h : IsOptional IsExpression value) (hn : value.SelectsNoNumber) :
    Laid ((Tree.node span (.returnStatement value)).marks level)
      (Tree.node span (.returnStatement value)).words := by
  rcases h with rfl | h
  · exact .word (.keyword .returnWord) (laid_text (.punctuator .semicolon)) rfl
  · have hneat := h.neat hn level
    simp only [Tree.marks, Tree.words, h.opens.isPresent, if_true, List.cons_append]
    exact .word (.keyword .returnWord) (.space (laid_semicolon hneat.laid hneat.ends)) trivial

end

/-- Statements are laid out as their words, if those inside are. -/
theorem IsStatementOf.laid (hsub : LaidClauses sub) (h : IsStatementOf sub tree)
    (hn : tree.SelectsNoNumber) : Laid (tree.marks level) tree.words := by
  cases h with
  | block h => exact h.laid hsub hn
  | empty span => exact laid_text (.punctuator .semicolon)
  | expression span h =>
    have hneat := h.neat (hn.child (by simp [NodeKind.occupants, NodeKind.slots])) level
    rw [Tree.marks, Tree.words]
    exact laid_semicolon hneat.laid hneat.ends
  | declaration h =>
    obtain ⟨marks, ws, hm, hw, hlaid, hends⟩ := IsLocalDeclaration.laid level h hn
    rw [hm, hw]
    exact laid_semicolon hlaid hends
  | ifThen span hc ht =>
    have hcond := hc.neat (hn.child (by simp [NodeKind.occupants, NodeKind.slots])) level
    have hthen := hsub _ level ht (hn.child (by simp [NodeKind.occupants, NodeKind.slots]))
    exact laid_ifThen span hcond hthen
  | ifThenElse span hc ht ho he =>
    have hcond := hc.neat (hn.child (by simp [NodeKind.occupants, NodeKind.slots])) level
    have hthen := hsub _ level ht (hn.child (by simp [NodeKind.occupants, NodeKind.slots]))
    have helse := hsub _ level he (hn.child (by simp [NodeKind.occupants, NodeKind.slots]))
    exact laid_ifThenElse span hcond hthen helse
  | whileLoop span hc hb =>
    have hcond := hc.neat (hn.child (by simp [NodeKind.occupants, NodeKind.slots])) level
    have hbody := hsub _ level hb (hn.child (by simp [NodeKind.occupants, NodeKind.slots]))
    exact laid_whileLoop span hcond hbody
  | doLoop span hb hc =>
    have hcond := hc.neat (hn.child (by simp [NodeKind.occupants, NodeKind.slots])) level
    have hbody := hsub _ level hb (hn.child (by simp [NodeKind.occupants, NodeKind.slots]))
    exact laid_doLoop span hcond hbody
  | forLoop span hi hc hu hb =>
    have hbody := hsub _ level hb (hn.child (by simp [NodeKind.occupants, NodeKind.slots]))
    exact laid_forLoop span hi hc hu hbody hn
  | returnValue span h =>
    exact laid_returnStatement span h (hn.child (by simp [NodeKind.occupants, NodeKind.slots]))
  | breakLoop span => exact .word (.keyword .breakWord) (laid_text (.punctuator .semicolon)) rfl
  | continueLoop span =>
    exact .word (.keyword .continueWord) (laid_text (.punctuator .semicolon)) rfl
  | throwValue span h =>
    have hneat := h.neat (hn.child (by simp [NodeKind.occupants, NodeKind.slots])) level
    rw [Tree.marks, Tree.words]
    exact .word (.keyword .throwWord) (.space (laid_semicolon hneat.laid hneat.ends)) trivial

private theorem laidClauses_statementFits (depth : Nat) : LaidClauses (StatementFits depth) := by
  induction depth with
  | zero => exact fun _ _ h => h.elim
  | succ depth ih => exact fun _ _ h hn => IsStatementOf.laid ih h hn

private theorem laidClauses_statement : LaidClauses IsStatement := by
  rintro tree level ⟨depth, h⟩ hn
  exact laidClauses_statementFits depth tree level h hn

/-! ## Members -/

/-- Parameters are laid out well, with commas between them. -/
private theorem laid_parameters (level : Nat) {parameters : List SourceTree}
    (h : ∀ p ∈ parameters, IsParameter p) :
    Laid (Tree.marksList .parameter level parameters) (Tree.wordsRow .parameter parameters) ∧
      EndsClosed (Tree.wordsRow .parameter parameters) := by
  refine laid_row rfl rfl fun p hp => ?_
  obtain ⟨span, modifiers, varargs, ht, hname⟩ := h p hp
  have htype := ht.neat level
  have hneat := (IsName.simple hname).neat level
  show Laid (Tree.marks level _) (Tree.words _) ∧ EndsClosed (Tree.words _)
  cases varargs with
  | false =>
    simp only [Tree.marks, Tree.words, Bool.false_eq_true, if_false, List.append_nil,
      List.append_assoc, List.cons_append, List.nil_append]
    exact ⟨laid_modifiers modifiers (htype.laid.append (.space hneat.laid) fun _ _ => trivial),
      (ends_modifiers modifiers).append (htype.ends.append hneat.ends)⟩
  | true =>
    simp only [Tree.marks, Tree.words, if_true, List.append_assoc, List.cons_append,
      List.nil_append]
    have hdots := Laid.word (.punctuator .ellipsis) (.space hneat.laid) trivial
    refine ⟨laid_modifiers modifiers (htype.laid.append hdots (ht.endsFirm.joins .ellipsis)), ?_⟩
    refine (ends_modifiers modifiers).append (htype.ends.append (hneat.ends.cons ?_ _))
    exact (IsName.simple hname).opens.words_ne_nil

/-- The classes of the members inside are laid out as their words, on lines of their own. -/
def ClosedClauses (sub : SourceTree → Prop) : Prop :=
  ∀ tree level, sub tree → tree.SelectsNoNumber →
    Closed (Form.member.place level tree.tag? (tree.marks level)) tree.words

private theorem closed_members {trees : List SourceTree}
    (h : ∀ t ∈ trees, Closed (Form.member.place level t.tag? (t.marks level)) t.words) :
    Closed (Tree.marksList .member level trees) (Tree.wordsRow .member trees) := by
  induction trees with
  | nil => exact closed_nil
  | cons t trees ih =>
    obtain ⟨ht, hrest⟩ := List.forall_mem_cons.mp h
    rw [Tree.marksList, Tree.wordsRow]
    cases trees with
    | nil => simpa [Form.placeWords, Tree.marksList, Tree.wordsRow] using ht
    | cons next trees =>
      have hrow := ht.append (ih hrest).newline
      simpa [Form.placeWords, Form.separator, Form.separatorWords] using hrow

/-- A name and a superclass before the members, if there is one. -/
theorem laid_superclass (level : Nat) {name superclass : SourceTree} (hname : IsSimpleName name)
    (h : IsOptional (IsType false) superclass) (hr : Laid marks ws) :
    Laid (name.marks level ++ ((if superclass.isPresent then
        [.space, .text "extends", .space] ++ superclass.marks level else []) ++ .space :: marks))
      (name.words ++
        ((if superclass.isPresent then .keyword .extendsWord :: superclass.words else []) ++
            ws)) := by
  have hneat := (IsName.simple hname).neat level
  rcases h with rfl | h
  · exact hneat.laid.append (.space hr) fun _ _ => trivial
  · rw [if_pos h.isPresent, if_pos h.isPresent]
    have htype := (h.neat level).laid.append (.space hr) fun _ _ => trivial
    exact hneat.laid.append (.space (.word (.keyword .extendsWord) (.space htype) trivial))
      fun _ _ => trivial

/-- A class or interface is laid out well and closed if its members are. -/
theorem IsTypeDeclarationOf.closed (hsub : ClosedClauses sub) (h : IsTypeDeclarationOf sub tree)
    (hn : tree.SelectsNoNumber) : Closed (tree.marks level) tree.words := by
  obtain ⟨span, modifiers, interface, hname, hs, hm⟩ := h
  have hmembers := closed_members fun m h =>
    hsub m (level + 1) (hm m h) (hn.child (by simp [NodeKind.occupants, NodeKind.slots, h]))
  intro marks' ws' h'
  have hclose := hmembers _ _ (.indent level (.word (.punctuator .rbrace) (.newline h') trivial))
  have hhead := laid_superclass level hname hs
    (.word (.punctuator .lbrace) (.newline hclose) trivial)
  simp only [Tree.marks, Tree.words, List.append_assoc, List.cons_append, List.nil_append]
  refine .indent level (laid_modifiers modifiers ?_)
  cases interface with
  | false => exact .word (.keyword .classWord) (.space hhead) trivial
  | true => exact .word (.keyword .interfaceWord) (.space hhead) trivial

/-- A method or a constructor from its name on. -/
theorem laid_methodRest (level : Nat) {name body : SourceTree} {parameters : List SourceTree}
    (hname : IsSimpleName name) (hp : ∀ p ∈ parameters, IsParameter p)
    (hb : IsOptional (IsBlock IsStatement) body) (hn : body.SelectsNoNumber) (hr : Laid marks ws) :
    Laid (name.marks level ++ .text "(" :: (Tree.marksList .parameter level parameters ++
        .text ")" :: ((if body.isPresent then .space :: body.marks level else [.text ";"]) ++
          .newline :: marks)))
      (name.words ++ .punctuator .lparen :: (Tree.wordsRow .parameter parameters ++
        .punctuator .rparen :: ((if body.isPresent then body.words else [.punctuator .semicolon]) ++
          ws))) := by
  have hneat := (IsName.simple hname).neat level
  obtain ⟨hrow, hends⟩ := laid_parameters level hp
  have hbody : Laid ((if body.isPresent then .space :: body.marks level else [.text ";"]) ++
      .newline :: marks)
      ((if body.isPresent then body.words else [.punctuator .semicolon]) ++ ws) := by
    rcases hb with rfl | hb
    · exact .word (.punctuator .semicolon) (.newline hr) trivial
    · have hlaid : Laid (body.marks level) body.words := hb.laid laidClauses_statement hn
      obtain ⟨span, h⟩ := hb
      exact .space (hlaid.append (.newline hr) fun _ _ => trivial)
  exact hneat.laid.append (laid_enclosed (l := .lparen) (r := .rparen) rfl rfl hrow hends hbody)
    (hneat.ends.joins rfl)

/-- A member is laid out well and closed if the members inside it are. -/
theorem IsMemberOf.closed (hsub : ClosedClauses sub) (h : IsMemberOf sub tree)
    (hn : tree.SelectsNoNumber) :
    Closed (Form.member.place level tree.tag? (tree.marks level)) tree.words := by
  cases h with
  | type h =>
    have hclosed : Closed (tree.marks level) tree.words := h.closed hsub hn
    obtain ⟨span, modifiers, interface, hname, hs, hm⟩ := h
    exact hclosed
  | field span modifiers ht hne hf =>
    have hrow := laid_fragments level hf fun f hf =>
      hn.child (by simp [NodeKind.occupants, NodeKind.slots, hf])
    intro marks' ws' h'
    have hvalues := hrow.1.append (.word (.punctuator .semicolon) (.newline h') trivial)
      (hrow.2.joins rfl)
    have hall := (ht.neat level).laid.append (.space hvalues) fun _ _ => trivial
    simp only [Form.place, Tree.tag?, NodeKind.tag, Tree.marks, Tree.words, List.append_assoc,
      List.cons_append, List.nil_append]
    exact .indent level (laid_modifiers modifiers hall)
  | method span modifiers hr hname hp hb =>
    intro marks' ws' h'
    have hrest := laid_methodRest level hname hp hb
      (hn.child (by simp [NodeKind.occupants, NodeKind.slots])) h'
    have hall := (hr.neat level).laid.append (.space hrest) fun _ _ => trivial
    simp only [Form.place, Tree.tag?, NodeKind.tag, Tree.marks, Tree.words, hr.isPresent, if_true,
      List.append_assoc, List.cons_append, List.nil_append]
    exact .indent level (laid_modifiers modifiers hall)
  | constructor span modifiers hname hp hb =>
    intro marks' ws' h'
    have hrest := laid_methodRest level hname hp hb
      (hn.child (by simp [NodeKind.occupants, NodeKind.slots])) h'
    simp only [Form.place, Tree.tag?, NodeKind.tag, Tree.marks, Tree.words, Tree.isPresent,
      Bool.false_eq_true, if_false, List.append_assoc, List.cons_append, List.nil_append]
    exact .indent level (laid_modifiers modifiers hrest)

private theorem closedClauses_member : ClosedClauses IsMember := by
  rintro tree level ⟨depth, h⟩ hn
  induction depth generalizing tree level with
  | zero => exact h.elim
  | succ depth ih => exact IsMemberOf.closed ih h hn

/-! ## Source files -/

/-- Headers, each on a line of its own. -/
theorem closed_headers {trees : List SourceTree}
    (h : ∀ t ∈ trees, Closed (Form.header.place level t.tag? (t.marks level)) t.words) :
    Closed (Tree.marksList .header level trees) (Tree.wordsRow .header trees) := by
  induction trees with
  | nil => exact closed_nil
  | cons t trees ih =>
    obtain ⟨ht, hrest⟩ := List.forall_mem_cons.mp h
    have hrow := ht.append (ih hrest)
    rw [Tree.marksList, Tree.wordsRow]
    cases trees <;> simpa [Form.placeWords, Form.separator, Form.separatorWords] using hrow

/-- A package declaration is laid out well and closed. -/
theorem IsPackage.closed (h : IsPackage tree) (level : Nat) :
    Closed (Form.header.place level tree.tag? (tree.marks level)) tree.words := by
  obtain ⟨span, h⟩ := h
  have hneat := h.neat level
  intro marks' ws' h'
  have hname := hneat.laid.append (.word (.punctuator .semicolon) (.newline h') trivial)
    (hneat.ends.joins rfl)
  simp only [Form.place, Tree.tag?, NodeKind.tag, Tree.marks, Tree.words, List.append_assoc,
    List.cons_append, List.nil_append]
  exact .word (.keyword .packageWord) (.space hname) trivial

/-- An import is laid out well and closed. -/
theorem IsImport.closed (h : IsImport tree) :
    Closed (Form.header.place level tree.tag? (tree.marks level)) tree.words := by
  obtain @⟨span, isStatic, onDemand, name, h⟩ := h
  have hneat := h.neat level
  intro marks' ws' h'
  have hsemi := Laid.word (.punctuator .semicolon) (.newline h') trivial
  have hname : Laid (name.marks level ++ ((if onDemand then [.text ".", .text "*"] else []) ++
      .text ";" :: .newline :: marks')) (name.words ++ ((if onDemand then
        [.punctuator .dot, .punctuator .star] else []) ++ .punctuator .semicolon :: ws')) := by
    cases onDemand with
    | false => exact hneat.laid.append hsemi (hneat.ends.joins rfl)
    | true =>
      have h1 : (Word.punctuator .star).abuts (.punctuator .semicolon) = true := by decide
      have h2 : (Word.punctuator .dot).abuts (.punctuator .star) = true := by decide
      exact hneat.laid.append (.word (.punctuator .dot) (.word (.punctuator .star) hsemi h1) h2)
        (h.endsFirm.joins .dot)
  simp only [Form.place, Tree.tag?, NodeKind.tag, Tree.marks, Tree.words, List.append_assoc,
    List.cons_append, List.nil_append]
  refine .word (.keyword .importWord) (.space ?_) trivial
  cases isStatic with
  | false => exact hname
  | true => exact .word (.keyword (.modifier .staticFlag)) (.space hname) trivial

/-- Marks that end with a punctuator and line ends. -/
def EndsLine (marks : List Mark) : Prop :=
  ∃ front p n, marks = front ++ .text (Punctuator.text p) :: List.replicate (n + 1) .newline

private theorem EndsLine.append_left (h : EndsLine marks) (front : List Mark) :
    EndsLine (front ++ marks) := by
  obtain ⟨front', p, n, rfl⟩ := h
  exact ⟨front ++ front', p, n, by rw [List.append_assoc]⟩

theorem EndsLine.newline (h : EndsLine marks) : EndsLine (marks ++ [.newline]) := by
  obtain ⟨front, p, n, rfl⟩ := h
  refine ⟨front, p, n + 1, ?_⟩
  rw [List.append_assoc, List.cons_append, ← List.replicate_succ']

private theorem endsLine_marksList {form : Form} {trees : List SourceTree} (hne : trees ≠ [])
    (h : ∀ t ∈ trees, EndsLine (form.place level t.tag? (t.marks level))) :
    EndsLine (Tree.marksList form level trees) := by
  induction trees with
  | nil => exact absurd rfl hne
  | cons t trees ih =>
    obtain ⟨ht, hrest⟩ := List.forall_mem_cons.mp h
    rw [Tree.marksList]
    cases trees with
    | nil => simpa [Tree.marksList] using ht
    | cons next trees => exact (ih (List.cons_ne_nil _ _) hrest).append_left _

private theorem endsLine_concat (front : List Mark) (p : Punctuator) :
    EndsLine (front ++ [.text p.text, .newline]) :=
  ⟨front, p, 0, rfl⟩

private theorem IsPackage.endsLine (h : IsPackage tree) (level : Nat) :
    EndsLine (Form.header.place level tree.tag? (tree.marks level)) := by
  obtain ⟨span, h⟩ := h
  simp only [Form.place, Tree.tag?, NodeKind.tag, Tree.marks]
  exact endsLine_concat _ .semicolon

private theorem IsImport.endsLine (h : IsImport tree) (level : Nat) :
    EndsLine (Form.header.place level tree.tag? (tree.marks level)) := by
  obtain ⟨span, isStatic, onDemand, h⟩ := h
  simp only [Form.place, Tree.tag?, NodeKind.tag, Tree.marks]
  exact endsLine_concat _ .semicolon

private theorem IsTypeDeclarationOf.endsLine (h : IsTypeDeclarationOf sub tree) :
    EndsLine (Form.member.place level tree.tag? (tree.marks level)) := by
  obtain ⟨span, modifiers, interface, hname, hs, hm⟩ := h
  simp only [Form.place, Tree.tag?, NodeKind.tag, Tree.marks]
  rw [List.append_cons]
  exact endsLine_concat _ .rbrace

/-- A source file is empty or ends with a line end. -/
theorem IsUnit.endsLine (h : IsUnit tree) (level : Nat) :
    tree.marks level = [] ∨ EndsLine (tree.marks level) := by
  obtain @⟨span, package, imports, types, hp, hi, ht⟩ := h
  rw [Tree.marks]
  by_cases hne : types = []
  · subst hne
    rw [Tree.marksList, List.append_nil]
    by_cases hne : imports = []
    · subst hne
      rw [Tree.marksList, List.append_nil, List.isEmpty_nil, if_pos rfl, List.append_nil]
      rcases hp with rfl | hp
      · exact .inl rfl
      · have hend := (hp.endsLine level).newline
        obtain ⟨span, h⟩ := hp
        exact .inr hend
    · have hend := endsLine_marksList hne fun i h => (hi i h).endsLine level
      rw [List.isEmpty_eq_false_iff.mpr hne, List.append_assoc]
      exact .inr (hend.newline.append_left _)
  · exact .inr ((endsLine_marksList hne fun t h => (ht t h).endsLine).append_left _)

/-- A compilation unit is laid out well and closed. -/
theorem IsUnit.closed (h : IsUnit tree) (hn : tree.SelectsNoNumber) :
    Closed (tree.marks level) tree.words := by
  obtain @⟨span, package, imports, types, hp, hi, ht⟩ := h
  have himports : Closed (Tree.marksList .header level imports) (Tree.wordsRow .header imports) :=
    closed_headers fun i h => (hi i h).closed
  have htypes : Closed (Tree.marksList .member level types) (Tree.wordsRow .member types) := by
    refine closed_members fun t h => ?_
    have hclosed : Closed (t.marks level) t.words := (ht t h).closed closedClauses_member
      (hn.child (by simp [NodeKind.occupants, NodeKind.slots, h]))
    obtain ⟨span, modifiers, interface, hname, hs, hm⟩ := ht t h
    exact hclosed
  have hgap : Closed (if imports.isEmpty then [] else [.newline]) [] := by
    split
    · exact closed_nil
    · exact closed_nil.newline
  have hpackage : Closed (if package.isPresent then
      Form.header.place level package.tag? (package.marks level) ++ [.newline] else [])
      package.words := by
    rcases hp with rfl | hp
    · exact closed_nil
    · have hclosed := (hp.closed level).append closed_nil.newline
      rw [List.append_nil] at hclosed
      obtain ⟨span, h⟩ := hp
      exact hclosed
  have hall := ((hpackage.append himports).append hgap).append htypes
  rw [Tree.marks, Tree.words]
  simpa using hall

/-! ## The text of a source file -/

/-- More or fewer line ends at the end of a layout make no difference. -/
theorem Laid.trimmed {front : List Mark} {text : String} {n : Nat}
    (h : Laid (front ++ .text text :: List.replicate (n + 1) .newline) ws) :
    Laid (front ++ [.text text, .newline]) ws := by
  have hjoins : ∀ (w : Word) (front : List Mark) (ws : List Word),
      w.Joins (front ++ .text text :: List.replicate (n + 1) .newline) ws →
        w.Joins (front ++ [.text text, .newline]) ws := by
    intro w front ws hj
    induction front with
    | nil => cases ws <;> exact hj
    | cons mark front ih =>
      cases mark with
      | indent level => exact ih hj
      | text | hole => cases ws <;> exact hj
      | _ => trivial
  have hblank : ∀ (n : Nat) (ws : List Word), Laid (List.replicate n .newline) ws → ws = [] := by
    intro n
    induction n with
    | zero =>
      rintro ws ⟨⟩
      rfl
    | succ n ih =>
      rintro ws h
      cases h with
      | newline h => exact ih ws h
  induction front generalizing ws with
  | nil =>
    cases h with
    | word w h hj =>
      cases hblank _ _ h
      exact .word w (.newline .nil) trivial
  | cons mark front ih =>
    cases h with
    | space h => exact .space (ih h)
    | newline h => exact .newline (ih h)
    | indent level h => exact .indent level (ih h)
    | word w h hj => exact .word w (ih h) (hjoins w front _ hj)

/-- A text that ends with line ends is closed by exactly one of them. -/
theorem toList_endWithNewline {text : String} {cs : List Char} {c : Char} {n : Nat} (hc : c ≠ '\n')
    (h : text.toList = cs ++ c :: List.replicate n '\n') :
    (endWithNewline text).toList = cs ++ [c, '\n'] := by
  have hne : text.isEmpty = false := by
    rw [String.isEmpty_eq_false_iff]
    rintro rfl
    exact List.append_ne_nil_of_right_ne_nil cs (List.cons_ne_nil _ _) h.symm
  have hrev : text.toList.reverse = List.replicate n '\n' ++ c :: cs.reverse := by
    rw [h]
    simp
  have hall : ∀ d ∈ List.replicate n '\n', decide (d = '\n') = true := by simp
  rw [endWithNewline, hne, hrev, List.dropWhile_append_of_pos hall]
  simp [hc]

private theorem render?_replicate_newline (n : Nat) :
    ∃ text, Mark.render? (List.replicate n .newline) = some text ∧
      text.toList = List.replicate n '\n' := by
  induction n with
  | zero => exact ⟨"", rfl, rfl⟩
  | succ n ih =>
    obtain ⟨text, ht, hlist⟩ := ih
    refine ⟨_, render?_cons rfl ht, ?_⟩
    rw [String.toList_append, hlist]
    rfl

/-- The text of a layout that ends with line ends, closed by exactly one. -/
theorem endWithNewline_render? (front : List Mark) (p : Punctuator) (n : Nat) :
    (Mark.render? (front ++ .text p.text :: List.replicate (n + 1) .newline)).map endWithNewline =
      Mark.render? (front ++ [.text p.text, .newline]) := by
  obtain ⟨cs, c, hp, hc⟩ : ∃ cs c, p.text.toList = cs ++ [c] ∧ c ≠ '\n' := by
    cases p <;> exact ⟨_, _, (List.dropLast_concat_getLast (by decide)).symm, by decide⟩
  obtain ⟨ends, hends, hlist⟩ := render?_replicate_newline (n + 1)
  have hone : Mark.render? [.text p.text, .newline] = some (p.text ++ ("\n" ++ "")) :=
    render?_cons rfl (render?_cons rfl rfl)
  have hmany := render?_cons (show (Mark.text p.text).written? = some p.text from rfl) hends
  rw [render?_append, render?_append, hone, hmany]
  cases Mark.render? front with
  | none => rfl
  | some text =>
    have hshape : (text ++ (p.text ++ ends)).toList =
        (text.toList ++ cs) ++ c :: List.replicate (n + 1) '\n' := by
      simp only [String.toList_append, hp, hlist, List.append_assoc, List.singleton_append]
    refine congrArg some (String.ext ?_)
    rw [toList_endWithNewline hc hshape]
    simp [hp]

/-- No expression is a compilation unit, so the two goals do not overlap. -/
theorem IsExpression.not_compilationUnit {span : Span} {package : SourceTree}
    {imports types : List SourceTree} :
    ¬ IsExpression (.node span (.compilationUnit package imports types)) := by
  rintro ⟨depth, h⟩
  cases depth with
  | zero => cases h
  | succ depth => exact absurd h nofun

/-- What the grammar describes is laid out as its words when it is written. -/
theorem Describes.laid {goal : Goal} (h : Describes goal tree) (hn : tree.SelectsNoNumber) :
    ∃ marks, Laid marks tree.words ∧ tree.render? = Mark.render? marks := by
  cases goal with
  | expression =>
    have hlaid := (IsExpression.neat h hn 0).laid
    refine ⟨_, hlaid, ?_⟩
    unfold Tree.render?
    split
    next => exact absurd rfl (IsExpression.opens h).words_ne_nil
    next => exact absurd h IsExpression.not_compilationUnit
    next => rfl
  | compilationUnit =>
    have hlaid : Laid (tree.marks 0) tree.words := (IsUnit.closed h hn).laid
    have hrender : tree.render? = (Mark.render? (tree.marks 0)).map endWithNewline := by
      obtain ⟨span, hp, hi, ht⟩ := h
      rfl
    rcases IsUnit.endsLine h 0 with hnil | ⟨front, p, n, hend⟩
    · rw [hnil] at hlaid
      exact ⟨[], hlaid, by rw [hrender, hnil]; rfl⟩
    · rw [hend] at hlaid
      exact ⟨_, Laid.trimmed hlaid, by rw [hrender, hend, endWithNewline_render?]⟩

end JavaFold.Grammar
