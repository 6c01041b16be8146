import JavaFold.Proofs.Arena.Stock

/-!
# Productions over an arena

Every production of the grammar, with the allocations that it makes on its way, does over an arena
what it does over trees with the allocations made in the end (`follows_whole`).
-/

namespace JavaFold

open Grammar Edit

/-! ## Names, modifiers and types -/

theorem follows_simpleName : Follows simpleName simpleName .tree :=
  .start <| .take lifts_expectIdentifier fun _ =>
    follows_build (by simp [NodeKind.traverse]) (by simp [NodeKind.slots])

private theorem follows_qualifiedStep (start : Span) {name : SourceTree}
    (hn : Crop.tree.Whole name) :
    Follows (qualifiedStep start name)
      ((Crop.tree.stock hn).run >>= qualifiedStep start) (Crop.tree.turn name) := by
  refine .take (lifts_checkPunctuator .dot) fun _ => .take (lifts_kindAt 1) fun _ => .ite ?_ ?_
  · exact .take lifts_advance fun _ => follows_simpleName.next fun last hl => follows_node_again
      (by simp [NodeKind.traverse]) (by simp [NodeKind.slots, hn.slot, hl.slot])
  · exact follows_done hn

private theorem follows_name : Follows name name .tree :=
  .start <| .take lifts_currentSpan fun start => .into follows_simpleName fun _ hn =>
    follows_repeating (fun _ => follows_qualifiedStep start) hn

private theorem follows_dimensionStep (start : Span) {type : SourceTree}
    (ht : Crop.tree.Whole type) :
    Follows (dimensionStep start type)
      ((Crop.tree.stock ht).run >>= dimensionStep start) (Crop.tree.turn type) := by
  refine .take (lifts_checkPunctuator .lbracket) fun _ => .take (lifts_kindAt 1) fun _ => .ite ?_ ?_
  · exact .take lifts_advance fun _ => .take lifts_advance fun _ => follows_node_again
      (by simp [NodeKind.traverse]) (by simp [NodeKind.slots, ht.slot])
  · exact follows_done ht

private theorem follows_dimensions (start : Span) {type : SourceTree} (ht : Crop.tree.Whole type) :
    Follows (dimensions start type) ((Crop.tree.stock ht).run >>= dimensions start) .tree :=
  follows_repeating (fun _ => follows_dimensionStep start) ht

private theorem follows_primitiveType (primitive : PrimitiveType) :
    Follows (primitiveType primitive) (primitiveType primitive) .tree :=
  .start <| .take lifts_advance fun _ =>
    follows_build (by simp [NodeKind.traverse]) (by simp [NodeKind.slots])

/-- A type that is a name. -/
theorem follows_simpleType (start : Span) {name : SourceTree} (hn : Crop.tree.Whole name) :
    Follows (node start (.simpleType name))
      ((Crop.tree.stock hn).run >>= fun name => node start (.simpleType name)) .tree :=
  follows_node (by simp [NodeKind.traverse]) (by simp [NodeKind.slots, hn.slot])

theorem follows_type (allowVoid : Bool) : Follows (type allowVoid) (type allowVoid) .tree := by
  refine .start <| .take lifts_currentSpan fun start => .take lifts_currentKind fun kind => ?_
  split
  · exact .ite (follows_unexpected _) (.into (follows_primitiveType _) fun _ ht =>
      follows_dimensions start ht)
  · exact .into follows_name fun _ hn => .into (follows_simpleType start hn) fun _ ht =>
      follows_dimensions start ht
  · exact follows_unexpected _

/-! ## Expressions -/

section Expressions

variable {sub : Level → Parser Cursor SourceTree} {sub' : Level → Parser Filling NodeId}
  (hsub : ∀ l, Follows (sub l) (sub' l) .tree)

include hsub

private theorem follows_arguments : Follows (arguments sub) (arguments sub') .row := by
  refine .start <| .take (lifts_expectPunctuator .lparen) fun _ =>
    .take (lifts_checkPunctuator .rparen) fun _ => .ite ?_ ?_
  · exact .take (lifts_expectPunctuator .rparen) fun _ => follows_pure (by simp) (by simp)
  · exact .into (follows_commaSeparated (hsub .expression)) fun _ hs =>
      .take (lifts_expectPunctuator .rparen) fun _ => follows_kept hs

omit hsub in
private theorem follows_typeLiteral (start : Span) {type : SourceTree} (ht : Crop.tree.Whole type) :
    Follows (typeLiteral start type) ((Crop.tree.stock ht).run >>= typeLiteral start) .tree :=
  .take (lifts_expectPunctuator .dot) fun _ => .take (lifts_expectKeyword .classWord) fun _ =>
    follows_node (by simp [NodeKind.traverse]) (by simp [NodeKind.slots, ht.slot])

omit hsub in
private theorem follows_qualifiedOperandStep (start : Span) {name : SourceTree}
    (hn : Crop.tree.Whole name) :
    Follows (qualifiedOperandStep start name)
      ((Crop.tree.stock hn).run >>= qualifiedOperandStep start) (Crop.tree.turn name) :=
  .take (lifts_kindAt 2) fun _ => .ite (follows_done hn) (follows_qualifiedStep start hn)

private theorem follows_nameOperand : Follows (nameOperand sub) (nameOperand sub') .tree := by
  refine .start <| .take lifts_currentSpan fun start => .into follows_simpleName fun first hf =>
    .take (lifts_checkPunctuator .lparen) fun _ => .ite ?call ?name
  case call =>
    exact (follows_arguments hsub).next fun _ hs => follows_node (by simp [NodeKind.traverse])
      (by simp [NodeKind.slots, NodeKind.tag, Tag.isOptional, Crop.Whole.absent.optionalSlot,
          hf.slot,
        hs.listSlot])
  case name =>
    refine .into (follows_repeating (fun _ => follows_qualifiedOperandStep start) hf) fun _ hn =>
      .take (lifts_checkPunctuator .dot) fun _ => .take (lifts_kindAt 1) fun _ => .ite ?_ ?_
    · exact .into (follows_simpleType start hn) fun _ ht => follows_typeLiteral start ht
    refine .take (lifts_checkPunctuator .lbracket) fun _ => .take (lifts_kindAt 1) fun _ =>
      .ite ?_ (follows_kept hn)
    exact .into (follows_simpleType start hn) fun _ ht => .into (follows_dimensions start ht)
      fun _ hd => follows_typeLiteral start hd

private theorem follows_instanceCreation :
    Follows (instanceCreation sub) (instanceCreation sub') .tree := by
  refine .start <| .take (lifts_expectKeyword .newWord) fun token =>
    .take (lifts_check .identifier) fun _ => .ite (follows_unsupported _) ?_
  refine .take lifts_currentSpan fun start => .into follows_name fun _ hn =>
    .into (follows_simpleType start hn) fun _ ht => .take (lifts_checkPunctuator .lbracket) fun _ =>
      .ite (follows_unsupported _) ?_
  exact (follows_arguments hsub).next fun _ hs => .take (lifts_checkPunctuator .lbrace) fun _ =>
    .ite (follows_unsupported _) (follows_node (by simp [NodeKind.traverse])
      (by simp [NodeKind.slots, ht.slot, hs.listSlot]))

omit hsub in
/-- A node of one token, which has no children. -/
theorem follows_leaf {kind : NodeKind String SourceTree} {kind' : NodeKind String NodeId}
    (h : pure kind' = kind.traverse pure (fun _ => plant) fun _ trees => trees.mapM plant)
    (hslots : kind.slots = []) : Follows (leaf kind) (leaf kind') .tree :=
  .start <| .take lifts_advance fun _ => follows_build (by simpa using h) (by simp [hslots])

private theorem follows_primary : Follows (primary sub) (primary sub') .tree := by
  refine .start <| .take lifts_current fun token => ?_
  split
  any_goals exact follows_leaf rfl rfl
  · exact follows_instanceCreation hsub
  · exact .into (follows_primitiveType _) fun _ hp => .into (follows_dimensions token.span hp)
      fun _ hd => follows_typeLiteral token.span hd
  · exact .take lifts_advance fun _ => .into (hsub .expression) fun _ he =>
      .take (lifts_expectPunctuator .rparen) fun _ =>
        follows_node (by simp [NodeKind.traverse]) (by simp [NodeKind.slots, he.slot])
  · exact follows_nameOperand hsub
  · exact follows_unexpected _

private theorem follows_selectorStep (start : Span) {operand : SourceTree}
    (ho : Crop.tree.Whole operand) :
    Follows (selectorStep sub start operand)
      ((Crop.tree.stock ho).run >>= selectorStep sub' start) (Crop.tree.turn operand) := by
  refine .take (lifts_eatPunctuator .dot) fun _ => .ite ?member ?_
  case member =>
    refine follows_simpleName.next fun _ hn => .take (lifts_checkPunctuator .lparen) fun _ =>
      .ite ?_ ?_
    · exact (follows_arguments hsub).next fun _ hs => follows_node_again
        (by simp [NodeKind.traverse]) (by simp [NodeKind.slots, ho.slot, hn.slot, hs.listSlot])
    · exact follows_node_again (by simp [NodeKind.traverse])
        (by simp [NodeKind.slots, ho.slot, hn.slot])
  refine .take (lifts_eatPunctuator .lbracket) fun _ => .ite ?_ (follows_done ho)
  exact (hsub .expression).next fun _ hi => .take (lifts_expectPunctuator .rbracket) fun _ =>
    follows_node_again (by simp [NodeKind.traverse]) (by simp [NodeKind.slots, ho.slot, hi.slot])

omit hsub in
private theorem follows_postfixStep (start : Span) {operand : SourceTree}
    (ho : Crop.tree.Whole operand) :
    Follows (postfixStep start operand)
      ((Crop.tree.stock ho).run >>= postfixStep start) (Crop.tree.turn operand) := by
  refine .take lifts_currentKind fun kind => ?_
  split
  · exact .take lifts_advance fun _ => follows_node_again (by simp [NodeKind.traverse])
      (by simp [NodeKind.slots, ho.slot])
  · exact follows_done ho

private theorem follows_postfixed : Follows (postfixed sub) (postfixed sub') .tree :=
  .start <| .take lifts_currentSpan fun start => .into (follows_primary hsub) fun _ ho =>
    .into (follows_repeating (fun _ => follows_selectorStep hsub start) ho) fun _ hs =>
      follows_repeating (fun _ => follows_postfixStep start) hs

private theorem follows_unary : Follows (unary sub) (unary sub') .tree := by
  refine .start <| .take lifts_currentSpan fun start => .take lifts_currentKind fun kind => ?_
  split
  · exact .take lifts_advance fun _ => .into (hsub .unary) fun _ ho =>
      follows_node (by simp [NodeKind.traverse]) (by simp [NodeKind.slots, ho.slot])
  · refine .take (lifts_checkPunctuator .lparen) fun _ => .take lifts_atCast fun _ =>
      .ite ?_ (follows_postfixed hsub)
    exact .take lifts_advance fun _ => .into (follows_type false) fun _ ht =>
      .take (lifts_expectPunctuator .rparen) fun _ => (hsub .unary).next fun _ he =>
        follows_node (by simp [NodeKind.traverse]) (by simp [NodeKind.slots, ht.slot, he.slot])

private theorem follows_binaryStep (least : Nat) (start : Span) {left : SourceTree}
    (hl : Crop.tree.Whole left) :
    Follows (binaryStep sub least start left)
      ((Crop.tree.stock hl).run >>= binaryStep sub' least start) (Crop.tree.turn left) := by
  refine .take lifts_currentKind fun kind => .ite ?_ ?_
  · exact .take lifts_advance fun _ => (follows_type false).next fun _ hr => follows_node_again
      (by simp [NodeKind.traverse]) (by simp [NodeKind.slots, hl.slot, hr.slot])
  split
  · refine .ite (follows_done hl) ?_
    exact .take lifts_advance fun _ => (hsub _).next fun _ hr => follows_node_again
      (by simp [NodeKind.traverse]) (by simp [NodeKind.slots, hl.slot, hr.slot])
  · exact follows_done hl

private theorem follows_binary (least : Nat) : Follows (binary sub least)
    (binary sub' least) .tree :=
  .start <| .take lifts_currentSpan fun start => .into (follows_unary hsub) fun _ hl =>
    follows_repeating (fun _ => follows_binaryStep hsub least start) hl

private theorem follows_conditional : Follows (conditional sub) (conditional sub') .tree := by
  refine .start <| .take lifts_currentSpan fun start => .into (follows_binary hsub 1) fun _ hc =>
    .take (lifts_eatPunctuator .question) fun _ => .ite ?_ (follows_kept hc)
  exact (hsub .expression).next fun _ ht => .take (lifts_expectPunctuator .colon) fun _ =>
    (hsub .conditional).next fun _ he => follows_node (by simp [NodeKind.traverse])
      (by simp [NodeKind.slots, hc.slot, ht.slot, he.slot])

private theorem follows_assignment : Follows (assignment sub) (assignment sub') .tree := by
  refine .start <| .take lifts_currentSpan fun start => .into (follows_conditional hsub) fun _ hl =>
    .take lifts_currentKind fun kind => ?_
  split
  · exact .take lifts_advance fun _ => (hsub .expression).next fun _ hr =>
      follows_node (by simp [NodeKind.traverse]) (by simp [NodeKind.slots, hl.slot, hr.slot])
  · exact follows_kept hl

end Expressions

private theorem follows_level (depth : Nat) (l : Level) : Follows (level depth l)
    (level depth l) .tree := by
  induction depth generalizing l with
  | zero => exact .start (follows_unexpected _)
  | succ depth ih =>
    cases l with
    | expression => exact follows_assignment ih
    | conditional => exact follows_conditional ih
    | binary least => exact follows_binary ih least
    | unary => exact follows_unary ih

private theorem follows_expression : Follows expression expression .tree :=
  follows_bounded fun depth => follows_level depth .expression

/-! ## Statements -/

private theorem follows_initializer : Follows initializer initializer .optional :=
  .start <| .take (lifts_eatPunctuator .eq) fun _ => .ite
    (.take (lifts_checkPunctuator .lbrace) fun _ =>
      .ite (follows_unsupported _) follows_expression.optional) follows_absent

private theorem follows_fragment : Follows fragment fragment .tree :=
  .start <| .take lifts_currentSpan fun start => .into follows_simpleName fun _ hn =>
    follows_initializer.next fun _ hi => follows_node (by simp [NodeKind.traverse])
      (by simp [NodeKind.slots, NodeKind.tag, Tag.isOptional, hn.slot, hi.optionalSlot])

private theorem follows_fragments : Follows fragments fragments .row :=
  follows_commaSeparated follows_fragment

private theorem follows_localDeclaration : Follows localDeclaration localDeclaration .tree :=
  .start <| .take lifts_currentSpan fun start => .take lifts_modifiers fun _ =>
    .into (follows_type false) fun _ ht => follows_fragments.next fun _ hs =>
      follows_node (by simp [NodeKind.traverse]) (by simp [NodeKind.slots, ht.slot, hs.listSlot])

private theorem follows_condition : Follows condition condition .tree :=
  .start <| .take (lifts_expectPunctuator .lparen) fun _ => .into follows_expression fun _ he =>
    .take (lifts_expectPunctuator .rparen) fun _ => follows_kept he

private theorem follows_forInitializers : Follows forInitializers forInitializers .row := by
  refine .start <| .take lifts_atDeclaration fun _ => .ite ?declaration ?_
  case declaration =>
    exact .into follows_localDeclaration fun _ hd => .take (lifts_checkPunctuator .colon) fun _ =>
      .ite (follows_unsupported _) (follows_pure (by simpa using hd) (by simp))
  exact .take (lifts_checkPunctuator .semicolon) fun _ =>
    .ite (follows_pure (by simp) (by simp)) (follows_commaSeparated follows_expression)

private theorem follows_optionalExpression (stop : Punctuator) :
    Follows (optionalExpression stop) (optionalExpression stop) .optional :=
  .start <| .take (lifts_checkPunctuator stop) fun _ =>
    .ite follows_absent follows_expression.optional

private theorem follows_optionalExpressions (stop : Punctuator) :
    Follows (optionalExpressions stop) (optionalExpressions stop) .row :=
  .start <| .take (lifts_checkPunctuator stop) fun _ =>
    .ite (follows_pure (by simp) (by simp)) (follows_commaSeparated follows_expression)

private theorem follows_returnStatement : Follows returnStatement returnStatement .tree :=
  .start <| .take (lifts_expectKeyword .returnWord) fun token =>
    .into (follows_optionalExpression .semicolon) fun _ hv =>
      .take (lifts_expectPunctuator .semicolon) fun _ => follows_node (by simp [NodeKind.traverse])
        (by simp [NodeKind.slots, NodeKind.tag, Tag.isOptional, hv.optionalSlot])

private theorem follows_throwStatement : Follows throwStatement throwStatement .tree :=
  .start <| .take (lifts_expectKeyword .throwWord) fun token => .into follows_expression fun _ hv =>
    .take (lifts_expectPunctuator .semicolon) fun _ =>
      follows_node (by simp [NodeKind.traverse]) (by simp [NodeKind.slots, hv.slot])

/-- A statement of one keyword, which has no children. -/
theorem follows_keywordStatement (keyword : Keyword) {kind : NodeKind String SourceTree}
    {kind' : NodeKind String NodeId}
    (h : pure kind' = kind.traverse pure (fun _ => plant) fun _ trees => trees.mapM plant)
    (hslots : kind.slots = []) :
    Follows (keywordStatement keyword kind) (keywordStatement keyword kind') .tree :=
  .start <| .take (lifts_expectKeyword keyword) fun token =>
    .take (lifts_expectPunctuator .semicolon) fun _ =>
      follows_node (by simpa using h) (by simp [hslots])

private theorem follows_plainStatement : Follows plainStatement plainStatement .tree := by
  refine .start <| .take lifts_currentSpan fun start => .take lifts_atDeclaration fun _ =>
    .ite ?_ ?_
  · exact .into follows_localDeclaration fun _ hd => .take (lifts_expectPunctuator .semicolon)
      fun _ => follows_kept hd
  · exact .into follows_expression fun _ he => .take (lifts_expectPunctuator .semicolon) fun _ =>
      follows_node (by simp [NodeKind.traverse]) (by simp [NodeKind.slots, he.slot])

section Statements

variable {statement : Parser Cursor SourceTree} {statement' : Parser Filling NodeId}
  (h : Follows statement statement' .tree)

include h

private theorem follows_blockStep {statements : List SourceTree} (hs : Crop.row.Whole statements) :
    Follows (blockStep statement statements)
      ((Crop.row.stock hs).run >>= blockStep statement') (Crop.row.turn statements) := by
  refine .take (lifts_checkPunctuator .rbrace) fun _ => .ite (follows_done hs) ?_
  exact .take (lifts_check .endOfFile) fun _ => .ite (follows_unexpected _)
    (h.next fun _ ht => follows_append hs ht)

private theorem follows_block : Follows (block statement) (block statement') .tree :=
  .start <| .take (lifts_expectPunctuator .lbrace) fun token =>
    .into (follows_rows fun _ hs => follows_blockStep h hs) fun _ hs =>
      .take (lifts_expectPunctuator .rbrace) fun _ =>
        follows_node (by simp [NodeKind.traverse]) (by simp [NodeKind.slots, hs.listSlot])

private theorem follows_forStatement : Follows (forStatement statement)
    (forStatement statement') .tree := by
  refine .start <| .take (lifts_expectKeyword .forWord) fun token =>
    .take (lifts_expectPunctuator .lparen) fun _ => .into follows_forInitializers fun _ hi =>
      .take (lifts_expectPunctuator .semicolon) fun _ => ?_
  refine (follows_optionalExpression .semicolon).next fun _ hc =>
    .take (lifts_expectPunctuator .semicolon) fun _ =>
      (follows_optionalExpressions .rparen).next fun _ hu => ?_
  exact .take (lifts_expectPunctuator .rparen) fun _ => h.next fun _ hb =>
    follows_node (by simp [NodeKind.traverse]) (by simp [NodeKind.slots, NodeKind.tag,
      Tag.isOptional, hi.listSlot, hc.optionalSlot, hu.listSlot, hb.slot])

private theorem follows_ifStatement : Follows (ifStatement statement)
    (ifStatement statement') .tree := by
  refine .start <| .take (lifts_expectKeyword .ifWord) fun token => .into follows_condition
    fun _ hc => h.next fun _ ht => .take (lifts_eatKeyword .elseWord) fun _ => .ite ?_ ?_
  · exact h.next fun _ he => follows_node (by simp [NodeKind.traverse])
      (by simp [NodeKind.slots, hc.slot, ht.slot, he.slot])
  · exact follows_absent.next fun _ he => follows_node (by simp [NodeKind.traverse])
      (by simp [NodeKind.slots, NodeKind.tag, Tag.isOptional, hc.slot, ht.slot, he.optionalSlot])

private theorem follows_whileStatement :
    Follows (whileStatement statement) (whileStatement statement') .tree :=
  .start <| .take (lifts_expectKeyword .whileWord) fun token => .into follows_condition fun _ hc =>
    h.next fun _ hb => follows_node (by simp [NodeKind.traverse])
      (by simp [NodeKind.slots, hc.slot, hb.slot])

private theorem follows_doStatement : Follows (doStatement statement)
    (doStatement statement') .tree :=
  .start <| .take (lifts_expectKeyword .doWord) fun token => .into h fun _ hb =>
    .take (lifts_expectKeyword .whileWord) fun _ => follows_condition.next fun _ hc =>
      .take (lifts_expectPunctuator .semicolon) fun _ => follows_node (by simp [NodeKind.traverse])
        (by simp [NodeKind.slots, hb.slot, hc.slot])

private theorem follows_statementStep :
    Follows (statementStep statement) (statementStep statement') .tree := by
  refine .start <| .take lifts_currentKind fun kind => ?_
  split
  · exact follows_block h
  · exact follows_leaf rfl rfl
  · exact follows_ifStatement h
  · exact follows_whileStatement h
  · exact follows_doStatement h
  · exact follows_forStatement h
  · exact follows_returnStatement
  · exact follows_keywordStatement _ rfl rfl
  · exact follows_keywordStatement _ rfl rfl
  · exact follows_throwStatement
  · exact follows_unsupported _
  · exact follows_unsupported _
  · exact follows_plainStatement

end Statements

private theorem follows_statementUpTo (depth : Nat) :
    Follows (statementUpTo depth) (statementUpTo depth) .tree := by
  induction depth with
  | zero => exact .start (follows_unexpected _)
  | succ depth ih => exact follows_statementStep ih

private theorem follows_statement : Follows statement statement .tree :=
  follows_bounded follows_statementUpTo

/-! ## Declarations -/

private theorem follows_parameter : Follows parameter parameter .tree :=
  .start <| .take lifts_currentSpan fun start => .take lifts_modifiers fun _ =>
    .into (follows_type false) fun _ ht => .take (lifts_eatPunctuator .ellipsis) fun _ =>
      follows_simpleName.next fun _ hn => follows_node (by simp [NodeKind.traverse])
        (by simp [NodeKind.slots, ht.slot, hn.slot])

private theorem follows_parameters : Follows parameters parameters .row := by
  refine .start <| .take (lifts_expectPunctuator .lparen) fun _ =>
    .take (lifts_checkPunctuator .rparen) fun _ => .ite ?_ ?_
  · exact .take (lifts_expectPunctuator .rparen) fun _ => follows_pure (by simp) (by simp)
  · exact .into (follows_commaSeparated follows_parameter) fun _ hs =>
      .take (lifts_expectPunctuator .rparen) fun _ => follows_kept hs

/-- The rest of a method takes in the type, which a constructor has none of, and the name. -/
theorem follows_methodRest (modifiers : Modifiers) (constructor : Bool) {type name : SourceTree}
    (start : Span) (ht : Crop.optional.Whole type) (hn : Crop.tree.Whole name) :
    Follows (methodRest modifiers constructor type name start)
      (((Crop.optional.stock ht).and (Crop.tree.stock hn)).run >>= fun g =>
        methodRest modifiers constructor g.1 g.2 start) .tree := by
  refine follows_parameters.next fun _ hs => .take (lifts_checkIdentifier "throws") fun _ =>
    .ite (follows_unsupported _) (.take (lifts_eatPunctuator .semicolon) fun _ => .ite ?_ ?_)
  · exact follows_absent.next fun _ hb => follows_node (by simp [NodeKind.traverse])
      (by simp [NodeKind.slots, NodeKind.tag, Tag.isOptional, ht.optionalSlot, hn.slot, hs.listSlot,
        hb.optionalSlot])
  · exact (follows_block follows_statement).next fun _ hb => follows_node
      (by simp [NodeKind.traverse]) (by simp [NodeKind.slots, NodeKind.tag, Tag.isOptional,
        ht.optionalSlot, hn.slot, hs.listSlot, hb.slot])

section Members

variable {member : Parser Cursor SourceTree} {member' : Parser Filling NodeId}
  (h : Follows member member' .tree)

include h

private theorem follows_memberStep {members : List SourceTree} (hs : Crop.row.Whole members) :
    Follows (memberStep member members)
      ((Crop.row.stock hs).run >>= memberStep member') (Crop.row.turn members) := by
  refine .take (lifts_checkPunctuator .rbrace) fun _ => .ite (follows_done hs) ?_
  refine .take (lifts_check .endOfFile) fun _ => .ite (follows_unexpected _) ?_
  exact .take (lifts_eatPunctuator .semicolon) fun _ => .ite (follows_again hs)
    (h.next fun _ ht => follows_append hs ht)

private theorem follows_typeDeclaration (modifiers : Modifiers) (start : Span) :
    Follows (typeDeclaration member modifiers start)
      (typeDeclaration member' modifiers start) .tree := by
  refine .start <| .take (lifts_eatKeyword .interfaceWord) fun interface =>
    .ite (.take (lifts_expectKeyword .classWord) fun _ => ?_) ?_
  all_goals
    refine .into follows_simpleName fun _ hn => .take (lifts_eatKeyword .extendsWord) fun _ =>
      .ite ((follows_type false).optional.next fun _ ht => ?_)
        (follows_absent.next fun _ ht => ?_)
  all_goals
    refine .take (lifts_checkIdentifier "implements") fun _ => .ite (follows_unsupported _) ?_
    exact .take (lifts_expectPunctuator .lbrace) fun _ =>
      (follows_rows fun _ hs => follows_memberStep h hs).next fun _ hs =>
        .take (lifts_expectPunctuator .rbrace) fun _ => follows_node (by simp [NodeKind.traverse])
          (by simp [NodeKind.slots, NodeKind.tag, Tag.isOptional, hn.slot, ht.optionalSlot,
            hs.listSlot])

omit h in
private theorem follows_typedMember (modifiers : Modifiers) (start : Span) :
    Follows (typedMember modifiers start) (typedMember modifiers start) .tree := by
  refine .start <| .into (follows_type true) fun type ht => .take (lifts_kindAt 1) fun _ =>
    .ite ?_ ?_
  · have hopt : Crop.optional.Whole type := fun _ => ht
    exact follows_simpleName.next fun name hn => follows_methodRest modifiers false start hopt hn
  · exact follows_fragments.next fun _ hs => .take (lifts_expectPunctuator .semicolon) fun _ =>
      follows_node (by simp [NodeKind.traverse])
        (by simp [NodeKind.slots, ht.slot, hs.listSlot])

private theorem follows_memberDeclaration :
    Follows (memberDeclaration member) (memberDeclaration member') .tree := by
  refine .start <| .take lifts_currentSpan fun start => .take lifts_modifiers fun modifiers =>
    .take lifts_currentKind fun kind => ?_
  split
  · exact follows_typeDeclaration h modifiers start
  · exact follows_typeDeclaration h modifiers start
  · exact follows_unsupported _
  · refine .take (lifts_kindAt 1) fun _ => .ite ?_ (follows_typedMember modifiers start)
    have habs := Crop.Whole.absent
    exact .into follows_simpleName fun name hn =>
      .recast ((Crop.optional.stock habs).and (Crop.tree.stock hn))
        (fun id => (Builder.absent Filling, id)) (by simp)
        (follows_methodRest modifiers true start habs hn)

end Members

private theorem follows_memberUpTo (depth : Nat) :
    Follows (memberUpTo depth) (memberUpTo depth) .tree := by
  induction depth with
  | zero => exact .start (follows_unexpected _)
  | succ depth ih => exact follows_memberDeclaration ih

private theorem follows_member : Follows member member .tree :=
  follows_bounded follows_memberUpTo

private theorem follows_importDeclaration : Follows importDeclaration importDeclaration .tree := by
  refine .start <| .take (lifts_expectKeyword .importWord) fun token =>
    .take (lifts_eatKeyword (.modifier .staticFlag)) fun _ => .into follows_name fun _ hn =>
      .take (lifts_checkPunctuator .dot) fun _ => .take (lifts_kindAt 1) fun _ => .ite
        (.take lifts_advance fun _ => .take lifts_advance fun _ => ?_) ?_
  all_goals
    exact .take (lifts_expectPunctuator .semicolon) fun _ =>
      follows_node (by simp [NodeKind.traverse]) (by simp [NodeKind.slots, hn.slot])

private theorem follows_package : Follows package package .optional :=
  .start <| .take (lifts_check _) fun _ => .ite
    (.take lifts_advance fun token => .into follows_name fun _ hn =>
      .take (lifts_expectPunctuator .semicolon) fun _ => Follows.optional <|
        follows_node (by simp [NodeKind.traverse]) (by simp [NodeKind.slots, hn.slot]))
    follows_absent

private theorem follows_importStep {imports : List SourceTree} (hs : Crop.row.Whole imports) :
    Follows (importStep imports) ((Crop.row.stock hs).run >>= importStep)
      (Crop.row.turn imports) :=
  .take (lifts_check _) fun _ => .ite
    (follows_importDeclaration.next fun _ ht => follows_append hs ht) (follows_done hs)

private theorem follows_typeStep {types : List SourceTree} (hs : Crop.row.Whole types) :
    Follows (typeStep types) ((Crop.row.stock hs).run >>= typeStep) (Crop.row.turn types) := by
  refine .take (lifts_check .endOfFile) fun _ => .ite (follows_done hs) ?_
  refine .take (lifts_eatPunctuator .semicolon) fun _ => .ite (follows_again hs) ?_
  exact .take lifts_currentSpan fun start => .take lifts_modifiers fun modifiers =>
    (follows_typeDeclaration follows_member modifiers start).next fun _ ht => follows_append hs ht

private theorem follows_compilationUnit : Follows compilationUnit compilationUnit .tree :=
  .start <| .take lifts_currentSpan fun start => .into follows_package fun _ hp =>
    (follows_rows fun _ hs => follows_importStep hs).next fun _ hi =>
      (follows_rows fun _ hs => follows_typeStep hs).next fun _ ht =>
        follows_node (by simp [NodeKind.traverse]) (by simp [NodeKind.slots, NodeKind.tag,
          Tag.isOptional, hp.optionalSlot, hi.listSlot, ht.listSlot])

/-! ## Whole sources -/

private theorem follows_production (goal : Goal) :
    Follows goal.production goal.production .tree := by
  cases goal with
  | compilationUnit => exact follows_compilationUnit
  | expression => exact follows_expression

/-- To read a whole source into an arena is to read its tree and to allocate the nodes of the tree.
-/
theorem follows_whole (goal : Goal) : Follows (whole goal) (whole goal) .tree :=
  .start <| .into (follows_production goal) fun _ ht => .take (lifts_check .endOfFile) fun _ =>
    .ite (follows_kept ht) (follows_unexpected _)

end JavaFold
