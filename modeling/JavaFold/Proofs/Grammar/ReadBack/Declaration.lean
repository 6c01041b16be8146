import JavaFold.Proofs.Grammar.ReadBack.Statement

/-!
# Declarations and source files are read back

The words of a source file are read back as the source file (`outcome_compilationUnit`), and more
generally the words of what a goal describes as what it describes (`outcome_production`).
-/

namespace JavaFold.Grammar

open Cursor

variable {n : Nat} {S : SourceTree → Prop} {member : Parser Cursor SourceTree} {rest : List Word}
variable {tree : SourceTree}

/-! ## Parameters -/

private theorem outcome_parameter (h : IsParameter tree) (rest : List Word) :
    parameter.outcome (reading (tree.words ++ rest)) = some (tree.bare, reading rest) := by
  obtain ⟨span, modifiers, varargs, ht, hn⟩ := h
  obtain ⟨span', text⟩ := hn
  have hmodifiers := outcome_modifiers_type modifiers ht
  cases varargs with
  | false =>
    have htype := outcome_type ht (.identifier text :: rest) (by rintro ⟨⟩) (by rintro ⟨⟩)
    simp [parameter, Tree.words, hmodifiers, htype, Word.kind]
    rfl
  | true =>
    have htype := outcome_type ht (.punctuator .ellipsis :: .identifier text :: rest)
      (by rintro ⟨⟩) (by rintro ⟨⟩)
    simp [parameter, Tree.words, hmodifiers, htype, Word.kind]
    rfl

theorem IsParameter.startsPlain (h : IsParameter tree) (rest : List Word) :
    startsPlain (headKind (tree.words ++ rest)) = true := by
  obtain ⟨span, modifiers, varargs, ht, hn⟩ := h
  simp only [Tree.words, List.append_assoc]
  exact startsPlain_declaration modifiers ht _

/-- The parameters of a method are read back up to the closing parenthesis. -/
private theorem outcome_parameters {parameters : List SourceTree}
    (h : ∀ p ∈ parameters, IsParameter p)
    (rest : List Word) :
    Grammar.parameters.outcome (reading (.punctuator .lparen ::
        (Tree.wordsRow .parameter parameters ++ .punctuator .rparen :: rest))) =
      some (parameters.map Tree.bare, reading rest) := by
  rw [wordsRow_eq_plain rfl fun _ _ => rfl]
  cases parameters with
  | nil => simp [Grammar.parameters, Tree.wordsRow, Word.kind]
  | cons first others =>
    have hread : (commaSeparated parameter).outcome (reading (Tree.wordsRow .plain (first :: others)
        ++ .punctuator .rparen :: rest)) = _ :=
      outcome_commaSeparated (fun t ht rest' _ => outcome_parameter (h t ht) rest') (by rintro ⟨⟩)
    have hhead : headKind (Tree.wordsRow .plain (first :: others) ++ .punctuator .rparen :: rest) ≠
        .punctuator .rparen := by
      have hplain := (h first List.mem_cons_self).startsPlain
        (others.flatMap (fun t => .punctuator .comma :: t.words) ++ .punctuator .rparen :: rest)
      rw [Tree.wordsRow_plain_cons, List.append_assoc]
      intro he
      rw [he] at hplain
      cases hplain
    simp [Grammar.parameters, hhead, hread]

/-! ## Methods -/

private theorem completeStatements_statement (n : Nat) :
    CompleteStatements n IsStatement Grammar.statement :=
  fun _ rest h _ hrest => outcome_statement h rest hrest

theorem IsStatement.opens (h : IsStatement tree) : OpensStatement tree := by
  obtain ⟨depth, h⟩ := h
  exact statementFits_opens h

/-- The words of the body of a method, or the semicolon in its place. -/
def bodyWords (body : SourceTree) : List Word :=
  if body.isPresent then body.words else [.punctuator .semicolon]

/-- What stands behind the name of a method is read back. -/
private theorem outcome_methodRest (modifiers : Modifiers) (constructor : Bool)
    (returnType name : SourceTree) {parameters : List SourceTree} {body : SourceTree}
    (hp : ∀ p ∈ parameters, IsParameter p) (hb : IsOptional (IsBlock IsStatement) body)
    (rest : List Word) :
    (methodRest modifiers constructor returnType name .nowhere).outcome
        (reading (.punctuator .lparen :: (Tree.wordsRow .parameter parameters ++
          .punctuator .rparen :: (bodyWords body ++ rest)))) =
      some (.node .nowhere (.methodDeclaration modifiers constructor returnType name
        (parameters.map Tree.bare) body.bare), reading rest) := by
  have hparameters := outcome_parameters hp (bodyWords body ++ rest)
  rw [methodRest, outcome_bind, hparameters, Option.bind_some]
  rcases hb with rfl | hb
  · simp [checkIdentifier, bodyWords, Tree.isPresent, Word.kind]
  · have hread := outcome_block (completeStatements_statement body.words.length)
      (fun _ => IsStatement.opens) hb (Nat.le_succ _) rest
    obtain ⟨span, hb⟩ := hb
    simp only [Tree.words, List.append_assoc, List.cons_append, List.nil_append] at hread
    simp [checkIdentifier, bodyWords, Tree.isPresent, Tree.words, Word.kind, hread]

/-! ## Types -/

/-- The production of members reads back the members of at most `n` words. -/
def CompleteMembers (n : Nat) (S : SourceTree → Prop) (member : Parser Cursor SourceTree) : Prop :=
  ∀ tree rest, S tree → tree.words.length ≤ n →
    member.outcome (reading (tree.words ++ rest)) = some (tree.bare, reading rest)

/-- Whether a member can start with a class of words. -/
def startsMember : TokenKind → Bool
  | .keyword .classWord | .keyword .interfaceWord => true
  | kind => startsPlain kind

/-- Members in a row are read one after the other. -/
theorem loops_memberStep (hc : CompleteMembers n S member)
    (hS : ∀ t, S t → startsMember (headKind t.words) = true) {members : List SourceTree}
    (h : ∀ m ∈ members, S m) (hn : (members.flatMap Tree.words).length ≤ n)
    (found : List SourceTree) (rest : List Word) :
    Loops (memberStep member) found (members.flatMap Tree.words ++ .punctuator .rbrace :: rest)
      (found ++ members.map Tree.bare) (.punctuator .rbrace :: rest) := by
  induction members generalizing found with
  | nil =>
    rw [List.map_nil, List.append_nil]
    exact .refl
  | cons tree members ih =>
    have hstart := hS tree (h tree List.mem_cons_self)
    have hne : tree.words ≠ [] := fun hw => by rw [hw] at hstart; cases hstart
    rw [List.flatMap_cons, List.length_append] at hn
    have hl := ih (fun m hm => h m (List.mem_cons_of_mem _ hm)) (by omega) (found ++ [tree.bare])
    rw [List.append_assoc, List.singleton_append] at hl
    have hread := hc tree (members.flatMap Tree.words ++ .punctuator .rbrace :: rest)
      (h tree List.mem_cons_self) (by omega)
    have hhead : headKind (tree.words ++ (members.flatMap Tree.words ++
        .punctuator .rbrace :: rest)) = headKind tree.words := headKind_append_of_ne_nil hne
    have hbrace : headKind tree.words ≠ .punctuator .rbrace :=
      fun hk => by rw [hk] at hstart; cases hstart
    have hsemicolon : headKind tree.words ≠ .punctuator .semicolon :=
      fun hk => by rw [hk] at hstart; cases hstart
    have heof : headKind tree.words ≠ .endOfFile := fun hk => by rw [hk] at hstart; cases hstart
    rw [List.flatMap_cons, List.append_assoc]
    refine .head ?_ ?_ hl
    · simp [memberStep, hhead, hbrace, hsemicolon, heof, hread]
    · have := List.length_pos_iff.2 hne
      simp only [List.length_append, List.length_cons]
      omega

/-- The keyword of a class or an interface. -/
def typeWord (interface : Bool) : Word :=
  if interface then .keyword .interfaceWord else .keyword .classWord

/-- The rest of a type is read back, the modifiers before it having been taken. -/
theorem outcome_typeDeclaration (hc : CompleteMembers n S member)
    (hS : ∀ t, S t → startsMember (headKind t.words) = true) (modifiers : Modifiers)
    (interface : Bool) {superclass : SourceTree} {members : List SourceTree} (text : String)
    (hs : IsOptional (IsType false) superclass) (hm : ∀ m ∈ members, S m)
    (hn : (members.flatMap Tree.words).length ≤ n) (rest : List Word) :
    (typeDeclaration member modifiers .nowhere).outcome (reading (typeWord interface ::
        .identifier text :: ((if superclass.isPresent then
          .keyword .extendsWord :: superclass.words else []) ++
            .punctuator .lbrace :: (members.flatMap Tree.words ++
              .punctuator .rbrace :: rest)))) =
      some (.node .nowhere (.typeDeclaration modifiers interface
        (.node .nowhere (.simpleName text)) superclass.bare (members.map Tree.bare)),
          reading rest) := by
  have hl := loops_memberStep hc hS hm hn [] rest
  have hstop (found : List SourceTree) : (memberStep member found).outcome
      (reading (.punctuator .rbrace :: rest)) =
        some (none, reading (.punctuator .rbrace :: rest)) := by
    simp [memberStep, Word.kind]
  have hmembers := outcome_repeating_of_loops hl (hstop _)
  rcases hs with rfl | hs
  · cases interface <;>
      simp [typeDeclaration, typeWord, Word.kind, Tree.isPresent, checkIdentifier, hmembers]
  · have htype := outcome_type hs (.punctuator .lbrace :: (members.flatMap Tree.words ++
      .punctuator .rbrace :: rest)) (by rintro ⟨⟩) (by rintro ⟨⟩)
    cases interface <;>
      simp [typeDeclaration, typeWord, Word.kind, hs.isPresent, checkIdentifier, htype, hmembers]

/-! ## Members -/

/-- The second word of a name, or of what follows it. -/
theorem IsName.headKind_tail_ne {name : SourceTree} (h : IsName name) {w : Word} {rest : List Word}
    (hw : w.kind ≠ .punctuator .lparen) :
    headKind (name.words ++ w :: rest).tail ≠ .punctuator .lparen := by
  induction h generalizing w rest with
  | simple h =>
    obtain ⟨span, text⟩ := h
    exact hw
  | @qualified span qualifier name hq hn ih =>
    have := @ih (.punctuator .dot) (name.words ++ w :: rest) nofun
    simpa [Tree.words] using this

/-- A type does not read as the name of a constructor. -/
theorem IsType.headKind_tail_ne {allowVoid : Bool} {type : SourceTree} (h : IsType allowVoid type)
    {w : Word} {rest : List Word} (hw : w.kind ≠ .punctuator .lparen) :
    headKind (type.words ++ w :: rest).tail ≠ .punctuator .lparen := by
  induction h generalizing w rest with
  | element h =>
    cases h with
    | primitive => exact hw
    | named span hn => exact hn.headKind_tail_ne hw
  | array span h ih =>
    have := @ih (.punctuator .lbracket) (.punctuator .rbracket :: w :: rest) nofun
    simpa [Tree.words] using this

/-- A member that starts with a type is read as a method or a field. -/
theorem outcome_memberDeclaration_typed (member : Parser Cursor SourceTree) (modifiers : Modifiers)
    {type : SourceTree}
    (ht : IsType true type) (text : String) (rest : List Word) :
    (memberDeclaration member).outcome
        (reading (modifiers.words ++ (type.words ++ .identifier text :: rest))) =
      (typedMember modifiers .nowhere).outcome
        (reading (type.words ++ .identifier text :: rest)) := by
  have hmodifiers := outcome_modifiers_type modifiers ht (.identifier text :: rest)
  have hsecond : headKind (type.words ++ .identifier text :: rest).tail ≠ .punctuator .lparen :=
    ht.headKind_tail_ne nofun
  have hhead : startsExpression (headKind (type.words ++ .identifier text :: rest)) = true := by
    rw [headKind_append_of_ne_nil ht.words_ne_nil]
    exact ht.startsExpression
  simp only [memberDeclaration, outcome_bind, outcome_currentSpan, Option.bind_some, hmodifiers,
    outcome_currentKind]
  split
  next hk => rw [hk] at hhead; cases hhead
  next hk => rw [hk] at hhead; cases hhead
  next hk => rw [hk] at hhead; cases hhead
  next => simp [hsecond]

/-- A type inside another one is read back: its modifiers first, as for any member. -/
private theorem outcome_member_type (hc : CompleteMembers n S member)
    (hS : ∀ t, S t → startsMember (headKind t.words) = true) (h : IsTypeDeclarationOf S tree)
    (hn : tree.words.length ≤ n + 1) (rest : List Word) :
    ∃ modifiers ws, Grammar.modifiers.outcome (reading (tree.words ++ rest)) =
        some (modifiers, reading ws) ∧
      (headKind ws = .keyword .classWord ∨ headKind ws = .keyword .interfaceWord) ∧
      (typeDeclaration member modifiers .nowhere).outcome (reading ws) =
        some (tree.bare, reading rest) := by
  obtain ⟨span, modifiers, interface, hname, hs, hm⟩ := h
  obtain ⟨span', text⟩ := hname
  rw [Tree.words, wordsRow_eq_flatMap .member rfl fun _ _ => rfl] at hn
  simp only [List.length_append, List.length_cons] at hn
  have hread := outcome_typeDeclaration hc hS modifiers interface text hs hm (by omega) rest
  refine ⟨modifiers, _, ?_, ?_, hread.trans ?_⟩
  · simp only [Tree.words, wordsRow_eq_flatMap .member rfl fun _ _ => rfl,
      List.append_assoc, List.cons_append, List.nil_append]
    exact outcome_modifiers modifiers (by cases interface <;> rfl)
  · cases interface
    · exact .inl rfl
    · exact .inr rfl
  · rw [Tree.bare_node]
    rfl

private theorem IsTypeDeclarationOf.startsMember (h : IsTypeDeclarationOf S tree) :
    startsMember (headKind tree.words) = true := by
  obtain ⟨span, modifiers, interface, hn, hs, hm⟩ := h
  simp only [Tree.words, List.append_assoc]
  rcases Modifiers.words_eq_nil_or modifiers with hw | ⟨m, ws, hw⟩
  · rw [hw]
    cases interface <;> rfl
  · rw [hw]
    rfl

private theorem startsMember_of_startsPlain {kind : TokenKind} (h : startsPlain kind = true) :
    startsMember kind = true := by
  unfold startsMember
  split
  next => rfl
  next => rfl
  next => exact h

private theorem IsMemberOf.startsMember (h : IsMemberOf S tree) :
    startsMember (headKind tree.words) = true := by
  cases h with
  | type h => exact h.startsMember
  | field span modifiers ht hne hf =>
    simp only [Tree.words, List.append_assoc]
    exact startsMember_of_startsPlain (startsPlain_declaration modifiers ht _)
  | method span modifiers hr hn hp hb =>
    simp only [Tree.words, List.append_assoc]
    exact startsMember_of_startsPlain (startsPlain_declaration modifiers hr _)
  | constructor span modifiers hn hp hb =>
    obtain ⟨span', text⟩ := hn
    simp only [Tree.words, List.append_assoc]
    rcases Modifiers.words_eq_nil_or modifiers with hw | ⟨m, ws, hw⟩ <;> rw [hw] <;> rfl

/-- A field is read back: its type is followed by a name that no parameters follow. -/
private theorem outcome_field {type : SourceTree} {fragments : List SourceTree} (span : Span)
    (modifiers : Modifiers) (ht : IsType true type) (hne : fragments ≠ [])
    (hf : ∀ f ∈ fragments, IsFragment f) (rest : List Word) :
    (memberDeclaration member).outcome (reading
        ((Tree.node span (.fieldDeclaration modifiers type fragments)).words ++ rest)) =
      some ((Tree.node span (.fieldDeclaration modifiers type fragments)).bare, reading rest) := by
  obtain ⟨text, ws, hw, htail⟩ := wordsRow_fragment_eq hne hf
  have hfragments := outcome_fragments hne hf (.punctuator .semicolon :: rest) rfl
  have htype := outcome_type ht (Tree.wordsRow .fragment fragments ++
    .punctuator .semicolon :: rest) (by rw [hw]; nofun) (by rw [hw]; nofun)
  have hstart := outcome_memberDeclaration_typed member modifiers ht text
    (ws ++ .punctuator .semicolon :: rest)
  rw [← List.cons_append, ← hw] at hstart
  have hsecond : headKind (Tree.wordsRow .fragment fragments ++
      .punctuator .semicolon :: rest).tail ≠ .punctuator .lparen := by
    rw [hw]
    exact htail _ nofun
  simp only [Tree.words, List.append_assoc, List.cons_append, List.nil_append]
  rw [hstart]
  simp [typedMember, htype, hsecond, hfragments, Tree.bare_node]
  rfl

section Methods

variable {name body : SourceTree} {parameters : List SourceTree}

/-- A method is read back: its type is followed by a name and parameters. -/
private theorem outcome_method {returnType : SourceTree} (span : Span) (modifiers : Modifiers)
    (hr : IsType true returnType) (hname : IsSimpleName name)
    (hp : ∀ p ∈ parameters, IsParameter p) (hb : IsOptional (IsBlock IsStatement) body)
    (rest : List Word) :
    (memberDeclaration member).outcome (reading ((Tree.node span
        (.methodDeclaration modifiers false returnType name parameters body)).words ++ rest)) =
      some ((Tree.node span
        (.methodDeclaration modifiers false returnType name parameters body)).bare,
        reading rest) := by
  obtain ⟨span', text⟩ := hname
  have hrest := outcome_methodRest modifiers false returnType.bare
    (.node .nowhere (.simpleName text)) hp hb rest
  have htype := outcome_type hr (.identifier text :: .punctuator .lparen ::
    (Tree.wordsRow .parameter parameters ++ .punctuator .rparen :: (bodyWords body ++ rest)))
    nofun nofun
  have hstart := outcome_memberDeclaration_typed member modifiers hr text
    (.punctuator .lparen :: (Tree.wordsRow .parameter parameters ++
      .punctuator .rparen :: (bodyWords body ++ rest)))
  simp only [Tree.words, List.append_assoc, List.cons_append, List.nil_append]
  refine hstart.trans ?_
  simp [typedMember, htype, Word.kind, hrest, Tree.bare_node]
  rfl

/-- A constructor is read back: its name is followed by parameters at once. -/
private theorem outcome_constructor (span : Span) (modifiers : Modifiers)
    (hname : IsSimpleName name) (hp : ∀ p ∈ parameters, IsParameter p)
    (hb : IsOptional (IsBlock IsStatement) body) (rest : List Word) :
    (memberDeclaration member).outcome (reading ((Tree.node span
        (.methodDeclaration modifiers true .absent name parameters body)).words ++ rest)) =
      some ((Tree.node span
        (.methodDeclaration modifiers true .absent name parameters body)).bare, reading rest) := by
  obtain ⟨span', text⟩ := hname
  have hrest := outcome_methodRest modifiers true .absent
    (.node .nowhere (.simpleName text)) hp hb rest
  have hmodifiers : Grammar.modifiers.outcome (reading (modifiers.words ++ .identifier text ::
      .punctuator .lparen :: (Tree.wordsRow .parameter parameters ++
        .punctuator .rparen :: (bodyWords body ++ rest)))) = _ :=
    outcome_modifiers modifiers rfl
  simp only [Tree.words, List.append_assoc, List.cons_append, List.nil_append]
  have hmember : (memberDeclaration member).outcome (reading (modifiers.words ++
      .identifier text :: .punctuator .lparen :: (Tree.wordsRow .parameter parameters ++
        .punctuator .rparen :: (bodyWords body ++ rest)))) =
      some (.node .nowhere (.methodDeclaration modifiers true .absent
        (.node .nowhere (.simpleName text)) (parameters.map Tree.bare) body.bare),
          reading rest) := by
    simp only [memberDeclaration, outcome_bind, outcome_currentSpan, Option.bind_some, hmodifiers,
      outcome_currentKind, headKind_cons, Word.kind]
    simp [Word.kind, hrest]
  refine hmember.trans ?_
  rw [Tree.bare_node]
  rfl

end Methods

/-- A member is read back. -/
theorem outcome_memberDeclaration (hc : CompleteMembers n S member)
    (hS : ∀ t, S t → startsMember (headKind t.words) = true) (h : IsMemberOf S tree)
    (hn : tree.words.length ≤ n + 1) (rest : List Word) :
    (memberDeclaration member).outcome (reading (tree.words ++ rest)) =
      some (tree.bare, reading rest) := by
  cases h with
  | type h =>
    obtain ⟨modifiers, ws, hmodifiers, hk, hread⟩ := outcome_member_type hc hS h hn rest
    simp only [memberDeclaration, outcome_bind, outcome_currentSpan, Option.bind_some, hmodifiers,
      outcome_currentKind]
    rcases hk with hk | hk <;> simp only [hk] <;> exact hread
  | field span modifiers ht hne hf => exact outcome_field span modifiers ht hne hf rest
  | method span modifiers hr hname hp hb =>
    exact outcome_method span modifiers hr hname hp hb rest
  | constructor span modifiers hname hp hb =>
    exact outcome_constructor span modifiers hname hp hb rest

private theorem memberFits_startsMember {depth : Nat} (h : MemberFits depth tree) :
    startsMember (headKind tree.words) = true := by
  cases depth with
  | zero => cases h
  | succ depth => exact IsMemberOf.startsMember h

/-- A depth of the number of words suffices to read back a member. -/
theorem completeMembers_memberUpTo (depth d : Nat) :
    CompleteMembers depth (MemberFits d) (memberUpTo depth) := by
  induction depth generalizing d with
  | zero =>
    intro tree rest h hn
    have hstart := memberFits_startsMember h
    rw [List.length_eq_zero_iff.1 (Nat.le_zero.1 hn)] at hstart
    cases hstart
  | succ depth ih =>
    intro tree rest h hn
    cases d with
    | zero => cases h
    | succ d => exact outcome_memberDeclaration (ih d) (fun _ => memberFits_startsMember) h hn rest

/-- A member is read back. -/
theorem completeMembers_member (n : Nat) : CompleteMembers n IsMember Grammar.member := by
  rintro tree rest ⟨d, hd⟩ -
  rw [Grammar.member, bounded, outcome_bind, outcome_place, Option.bind_some]
  exact completeMembers_memberUpTo _ d tree rest hd (by simp; omega)

/-! ## Source files -/

/-- An import is read back, with its star or without. -/
private theorem outcome_importDeclaration (h : IsImport tree) (rest : List Word) :
    importDeclaration.outcome (reading (tree.words ++ rest)) = some (tree.bare, reading rest) := by
  obtain @⟨span, isStatic, onDemand, name, hname⟩ := h
  obtain ⟨text, ws, hw⟩ := hname.words_eq
  have hstatic (ws' : List Word) :
      headKind (name.words ++ ws') ≠ .keyword (.modifier .staticFlag) := by
    rw [hw]
    rintro ⟨⟩
  cases onDemand with
  | false =>
    have hread := outcome_name hname (.punctuator .semicolon :: rest) (by rintro ⟨⟩)
    cases isStatic <;>
      simp [importDeclaration, Tree.words, Word.kind, hstatic, hread] <;> rfl
  | true =>
    have hread := outcome_name hname
      (.punctuator .dot :: .punctuator .star :: .punctuator .semicolon :: rest) (by rintro - ⟨⟩)
    cases isStatic <;>
      simp [importDeclaration, Tree.words, Word.kind, hstatic, hread] <;> rfl

/-- The rest of a source file that does not start with an import. -/
theorem loops_importStep {imports : List SourceTree} (h : ∀ i ∈ imports, IsImport i)
    (found : List SourceTree) (rest : List Word) :
    Loops importStep found (imports.flatMap Tree.words ++ rest) (found ++ imports.map Tree.bare)
      rest := by
  induction imports generalizing found with
  | nil =>
    rw [List.map_nil, List.append_nil]
    exact .refl
  | cons tree imports ih =>
    have hl := ih (fun i hi => h i (List.mem_cons_of_mem _ hi)) (found ++ [tree.bare])
    rw [List.append_assoc, List.singleton_append] at hl
    have himport := h tree List.mem_cons_self
    have hread := outcome_importDeclaration himport (imports.flatMap Tree.words ++ rest)
    obtain @⟨span, isStatic, onDemand, name, hname⟩ := himport
    rw [List.flatMap_cons, List.append_assoc]
    refine .head ?_ ?_ hl
    · have hhead : headKind ((Tree.node span (.importDeclaration isStatic onDemand name)).words ++
          (imports.flatMap Tree.words ++ rest)) = .keyword .importWord := rfl
      simp [importStep, hhead, hread]
    · simp only [Tree.words, List.length_append, List.length_cons]
      omega

/-- The types of a compilation unit are read back one after the other, to the end. -/
private theorem loops_typeStep {types : List SourceTree}
    (h : ∀ t ∈ types, IsTypeDeclarationOf IsMember t)
    (found : List SourceTree) :
    Loops typeStep found (types.flatMap Tree.words) (found ++ types.map Tree.bare) [] := by
  induction types generalizing found with
  | nil =>
    rw [List.map_nil, List.append_nil]
    exact .refl
  | cons tree types ih =>
    have hl := ih (fun t ht => h t (List.mem_cons_of_mem _ ht)) (found ++ [tree.bare])
    rw [List.append_assoc, List.singleton_append] at hl
    have htype := h tree List.mem_cons_self
    have hstart := htype.startsMember
    have hne : tree.words ≠ [] := fun hw => by rw [hw] at hstart; cases hstart
    obtain ⟨modifiers, ws, hmodifiers, -, hread⟩ := outcome_member_type
      (completeMembers_member tree.words.length) (fun _ ⟨_, hm⟩ => memberFits_startsMember hm) htype
      (Nat.le_succ _) (types.flatMap Tree.words)
    have hhead : headKind (tree.words ++ types.flatMap Tree.words) = headKind tree.words :=
      headKind_append_of_ne_nil hne
    have hsemicolon : headKind tree.words ≠ .punctuator .semicolon :=
      fun hk => by rw [hk] at hstart; cases hstart
    have heof : headKind tree.words ≠ .endOfFile := fun hk => by rw [hk] at hstart; cases hstart
    rw [List.flatMap_cons]
    refine .head ?_ ?_ hl
    · simp [typeStep, hhead, hsemicolon, heof, hmodifiers, hread]
    · have := List.length_pos_iff.2 hne
      simp only [List.length_append]
      omega

private theorem headKind_flatMap_types {types : List SourceTree} {k : Keyword}
    (h : ∀ t ∈ types, IsTypeDeclarationOf IsMember t) (hk : startsMember (.keyword k) = false) :
    headKind (types.flatMap Tree.words) ≠ .keyword k := by
  cases types with
  | nil => nofun
  | cons tree types =>
    have hstart := (h tree List.mem_cons_self).startsMember
    have hne : tree.words ≠ [] := fun hw => by rw [hw] at hstart; cases hstart
    rw [List.flatMap_cons, headKind_append_of_ne_nil hne]
    intro he
    rw [he, hk] at hstart
    cases hstart

/-- A source file is read back. -/
theorem outcome_compilationUnit (h : IsUnit tree) :
    compilationUnit.outcome (reading tree.words) = some (tree.bare, reading []) := by
  obtain @⟨span, package, imports, types, hp, hi, ht⟩ := h
  have htypes := outcome_repeating_of_loops (loops_typeStep ht []) (by simp [typeStep])
  have hnoImport : headKind (types.flatMap Tree.words) ≠ .keyword .importWord :=
    headKind_flatMap_types ht rfl
  have himports := outcome_repeating_of_loops
    (loops_importStep hi [] (types.flatMap Tree.words)) (by simp [importStep, hnoImport])
  rw [Tree.words, wordsRow_eq_flatMap .member rfl fun _ _ => rfl,
    wordsRow_eq_flatMap .header rfl fun _ _ => rfl, List.append_assoc]
  rcases hp with rfl | ⟨span', hname⟩
  · have hnoPackage : headKind (imports.flatMap Tree.words ++ types.flatMap Tree.words) ≠
        .keyword .packageWord := by
      cases imports with
      | nil => exact headKind_flatMap_types ht rfl
      | cons first imports =>
        obtain @⟨span', isStatic, onDemand, name, hname⟩ := hi first List.mem_cons_self
        nofun
    simp [compilationUnit, Tree.words, Grammar.package, hnoPackage, himports, htypes,
      Tree.bare_node]
    rfl
  · have hread := outcome_name hname (.punctuator .semicolon :: (imports.flatMap Tree.words ++
      types.flatMap Tree.words)) nofun
    simp [compilationUnit, Tree.words, Grammar.package, Word.kind, hread, himports, htypes,
      Tree.bare_node]
    rfl

/-- The words of what a goal describes are read back. -/
theorem outcome_production {goal : Goal} (h : Describes goal tree) :
    goal.production.outcome (reading tree.words) = some (tree.bare, reading []) := by
  cases goal with
  | compilationUnit => exact outcome_compilationUnit h
  | expression =>
    have := outcome_expression h [] rfl
    rwa [List.append_nil] at this

end JavaFold.Grammar
