import JavaFold.Proofs.Grammar.Phrase

/-!
# The statements and declarations that the grammar describes

As with expressions, the classes of statements and members are given the class of the statements or
members inside, and `StatementFits` and `MemberFits` tie the knots. One condition goes beyond the
shape of a production: a statement before an `else` does not end in an `if` without one, which would
take the `else` for itself (`Tree.endsOpen`).
-/

namespace JavaFold

/-- Whether a statement ends in an `if` without an `else`. -/
def Tree.endsOpen {ι : Type} : Tree ι → Bool
  | .node _ (.ifStatement _ _ elseStatement) => !elseStatement.isPresent || elseStatement.endsOpen
  | .node _ (.whileStatement _ body) => body.endsOpen
  | .node _ (.forStatement _ _ _ body) => body.endsOpen
  | _ => false

namespace Grammar

/-! ## Statements -/

/-- A tree that may be missing. -/
def IsOptional (P : SourceTree → Prop) (tree : SourceTree) : Prop :=
  tree = .absent ∨ P tree

/-- A declared variable with its initial value, if it has one. -/
inductive IsFragment : SourceTree → Prop where
  | intro (span : Span) {name initializer : SourceTree} (hn : IsSimpleName name)
    (hi : IsOptional IsExpression initializer) :
    IsFragment (.node span (.variableDeclarationFragment name initializer))

/-- A local declaration. -/
inductive IsLocalDeclaration : SourceTree → Prop where
  | intro (span : Span) (modifiers : Modifiers) {type : SourceTree} {fragments : List SourceTree}
    (ht : IsType false type) (hne : fragments ≠ []) (hf : ∀ f ∈ fragments, IsFragment f) :
    IsLocalDeclaration (.node span (.variableDeclarationStatement modifiers type fragments))

/-- What a `for` loop starts with. -/
inductive IsInitializers : List SourceTree → Prop where
  | declaration {declaration : SourceTree} (h : IsLocalDeclaration declaration) :
    IsInitializers [declaration]
  | expressions {expressions : List SourceTree} (h : ∀ e ∈ expressions, IsExpression e) :
    IsInitializers expressions

/-- A block, given the class of the statements in it. -/
inductive IsBlock (sub : SourceTree → Prop) : SourceTree → Prop where
  | intro (span : Span) {statements : List SourceTree} (h : ∀ s ∈ statements, sub s) :
    IsBlock sub (.node span (.block statements))

/-- A statement, given the class of the statements in it. -/
inductive IsStatementOf (sub : SourceTree → Prop) : SourceTree → Prop where
  | block {block : SourceTree} (h : IsBlock sub block) : IsStatementOf sub block
  | empty (span : Span) : IsStatementOf sub (.node span .emptyStatement)
  | expression (span : Span) {expression : SourceTree} (h : IsExpression expression) :
    IsStatementOf sub (.node span (.expressionStatement expression))
  | declaration {declaration : SourceTree} (h : IsLocalDeclaration declaration) :
    IsStatementOf sub declaration
  | ifThen (span : Span) {condition thenStatement : SourceTree} (hc : IsExpression condition)
    (ht : sub thenStatement) :
    IsStatementOf sub (.node span (.ifStatement condition thenStatement .absent))
  | ifThenElse (span : Span) {condition thenStatement elseStatement : SourceTree}
    (hc : IsExpression condition) (ht : sub thenStatement) (ho : thenStatement.endsOpen = false)
    (he : sub elseStatement) :
    IsStatementOf sub (.node span (.ifStatement condition thenStatement elseStatement))
  | whileLoop (span : Span) {condition body : SourceTree} (hc : IsExpression condition)
    (hb : sub body) : IsStatementOf sub (.node span (.whileStatement condition body))
  | doLoop (span : Span) {body condition : SourceTree} (hb : sub body)
    (hc : IsExpression condition) : IsStatementOf sub (.node span (.doStatement body condition))
  | forLoop (span : Span) {initializers updaters : List SourceTree} {condition body : SourceTree}
    (hi : IsInitializers initializers) (hc : IsOptional IsExpression condition)
    (hu : ∀ u ∈ updaters, IsExpression u) (hb : sub body) :
    IsStatementOf sub (.node span (.forStatement initializers condition updaters body))
  | returnValue (span : Span) {value : SourceTree} (h : IsOptional IsExpression value) :
    IsStatementOf sub (.node span (.returnStatement value))
  | breakLoop (span : Span) : IsStatementOf sub (.node span .breakStatement)
  | continueLoop (span : Span) : IsStatementOf sub (.node span .continueStatement)
  | throwValue (span : Span) {value : SourceTree} (h : IsExpression value) :
    IsStatementOf sub (.node span (.throwStatement value))

/-- The statements nested at most `depth` deep. -/
def StatementFits : Nat → SourceTree → Prop
  | 0 => fun _ => False
  | depth + 1 => IsStatementOf (StatementFits depth)

/-- A statement. -/
def IsStatement (tree : SourceTree) : Prop :=
  ∃ depth, StatementFits depth tree

/-! ## Declarations -/

/-- A parameter of a method. -/
inductive IsParameter : SourceTree → Prop where
  | intro (span : Span) (modifiers : Modifiers) (varargs : Bool) {type name : SourceTree}
    (ht : IsType false type) (hn : IsSimpleName name) :
    IsParameter (.node span (.singleVariableDeclaration modifiers varargs type name))

/-- A class or an interface, given the class of its members. -/
inductive IsTypeDeclarationOf (sub : SourceTree → Prop) : SourceTree → Prop where
  | intro (span : Span) (modifiers : Modifiers) (interface : Bool) {name superclass : SourceTree}
    {members : List SourceTree} (hn : IsSimpleName name)
    (hs : IsOptional (IsType false) superclass) (hm : ∀ m ∈ members, sub m) :
    IsTypeDeclarationOf sub
      (.node span (.typeDeclaration modifiers interface name superclass members))

/-- A member of a type, given the class of the members of a type in it. -/
inductive IsMemberOf (sub : SourceTree → Prop) : SourceTree → Prop where
  | type {declaration : SourceTree} (h : IsTypeDeclarationOf sub declaration) :
    IsMemberOf sub declaration
  | field (span : Span) (modifiers : Modifiers) {type : SourceTree} {fragments : List SourceTree}
    (ht : IsType true type) (hne : fragments ≠ []) (hf : ∀ f ∈ fragments, IsFragment f) :
    IsMemberOf sub (.node span (.fieldDeclaration modifiers type fragments))
  | method (span : Span) (modifiers : Modifiers) {returnType name body : SourceTree}
    {parameters : List SourceTree} (hr : IsType true returnType) (hn : IsSimpleName name)
    (hp : ∀ p ∈ parameters, IsParameter p) (hb : IsOptional (IsBlock IsStatement) body) :
    IsMemberOf sub (.node span (.methodDeclaration modifiers false returnType name parameters body))
  | constructor (span : Span) (modifiers : Modifiers) {name body : SourceTree}
    {parameters : List SourceTree} (hn : IsSimpleName name)
    (hp : ∀ p ∈ parameters, IsParameter p) (hb : IsOptional (IsBlock IsStatement) body) :
    IsMemberOf sub (.node span (.methodDeclaration modifiers true .absent name parameters body))

/-- The members nested at most `depth` types deep. -/
def MemberFits : Nat → SourceTree → Prop
  | 0 => fun _ => False
  | depth + 1 => IsMemberOf (MemberFits depth)

/-- A member of a type. -/
def IsMember (tree : SourceTree) : Prop :=
  ∃ depth, MemberFits depth tree

/-- A package clause. -/
inductive IsPackage : SourceTree → Prop where
  | intro (span : Span) {name : SourceTree} (h : IsName name) :
    IsPackage (.node span (.packageDeclaration name))

/-- An import. -/
inductive IsImport : SourceTree → Prop where
  | intro (span : Span) (isStatic onDemand : Bool) {name : SourceTree} (h : IsName name) :
    IsImport (.node span (.importDeclaration isStatic onDemand name))

/-- A source file. -/
inductive IsUnit : SourceTree → Prop where
  | intro (span : Span) {package : SourceTree} {imports types : List SourceTree}
    (hp : IsOptional IsPackage package) (hi : ∀ i ∈ imports, IsImport i)
    (ht : ∀ t ∈ types, IsTypeDeclarationOf IsMember t) :
    IsUnit (.node span (.compilationUnit package imports types))

/-- What a source text can be read as. -/
def Describes : Goal → SourceTree → Prop
  | .compilationUnit => IsUnit
  | .expression => IsExpression

end Grammar

end JavaFold
