import JavaFold.Proofs.Grammar.Steps
import JavaFold.Proofs.Tree.Spans

/-!
# The ranges of what is read

A node reaches from the token at which its production started to the token taken last. As tokens are
taken in the order of the source, the trees that a production builds one after the other make a row
(`Tree.Row`) between the two, and the node that is built from them takes the place of the row.

What has been read since a production started is kept in `After`; a step of a production is
described by what it makes of it (`Gives`). Main statement: `placed_of_parseTreeWith`.
-/

namespace JavaFold.Grammar

open JavaFold.Tree (Row Placed)

/-! ## Cursors over tokens in order -/

/-- Tokens in the order of a source, from an offset on, closed by the end of the source. -/
inductive InOrder (source : String) : Nat → List Token → Prop where
  | last {offset : Nat} (h : offset ≤ source.utf8ByteSize) :
    InOrder source offset [.endOfFile source.utf8ByteSize]
  | token {offset : Nat} {token : Token} {rest : List Token} (front : offset ≤ token.span.start)
    (extent : token.span.start < token.span.stop)
    (text : token.span.slice? source = some token.text)
    (after : InOrder source token.span.stop rest) : InOrder source offset (token :: rest)

/-- Tokens in order start inside the source. -/
theorem InOrder.le {source : String} {offset : Nat} {tokens : List Token}
    (h : InOrder source offset tokens) : offset ≤ source.utf8ByteSize := by
  induction h with
  | last h => exact h
  | token front extent text after ih => omega

/-- Tokens that tile a source stand in it in order. -/
private theorem inOrder_of_tiles {source : String} {tokens : List Token} (h : Tiles source tokens) :
    InOrder source 0 tokens := by
  obtain ⟨⟨front, rfl, hfront⟩, hordered, -, hsliced, -⟩ := h
  have hstart : ∀ token ∈ front ++ [.endOfFile source.utf8ByteSize], 0 ≤ token.span.start :=
    fun _ _ => Nat.zero_le _
  generalize 0 = offset at hstart ⊢
  induction front generalizing offset with
  | nil => exact .last (hstart _ List.mem_cons_self)
  | cons token front ih =>
    rw [List.cons_append] at hordered hsliced hstart ⊢
    obtain ⟨hnext, hordered⟩ := List.pairwise_cons.1 hordered
    obtain ⟨htext, hsliced⟩ := List.forall_mem_cons.1 hsliced
    obtain ⟨⟨-, hextent⟩, hfront⟩ := List.forall_mem_cons.1 hfront
    exact .token (hstart _ List.mem_cons_self) hextent htext
      (ih hfront hordered hsliced _ hnext)

/-- A cursor over tokens in order, the token taken last standing before the others. -/
def Sited (source : String) (c : Cursor) : Prop :=
  InOrder source c.previous.stop c.rest

/-- At least one token was taken between two states. -/
structure Taken (c c' : Cursor) : Prop where
  extent : c.current.span.start < c.current.span.stop
  front : c.current.span.start ≤ c'.previous.start
  back : c.current.span.stop ≤ c'.previous.stop

variable {source : String} {c c' first : Cursor}

/-- The token read last ends before the next one starts. -/
theorem Sited.front (h : Sited source c) : c.previous.stop ≤ c.current.span.start := by
  rw [Sited] at h
  rw [Cursor.current]
  cases hr : c.rest with
  | nil =>
    rw [hr] at h
    cases h
  | cons token rest =>
    rw [hr] at h
    cases h with
    | last hlast => exact hlast
    | token front _ _ _ => exact front

/-- The next token ends after it starts, inside the source. -/
theorem Sited.back (h : Sited source c) :
    c.current.span.start ≤ c.current.span.stop ∧ c.current.span.stop ≤ source.utf8ByteSize := by
  rw [Sited] at h
  rw [Cursor.current]
  cases hr : c.rest with
  | nil =>
    rw [hr] at h
    cases h
  | cons token rest =>
    rw [hr] at h
    cases h with
    | last => exact ⟨Nat.le_refl _, Nat.le_refl _⟩
    | token _ extent _ after => exact ⟨Nat.le_of_lt extent, after.le⟩

/-- Taking a token, which is not possible at the end of the source. -/
theorem Sited.advance (h : Sited source c) :
    c.advance = c ∧ c.current.kind = .endOfFile ∨
      Sited source c.advance ∧ Taken c c.advance ∧ c.advance.previous = c.current.span ∧
        c.current.span.slice? source = some c.current.text := by
  obtain ⟨previous, rest⟩ := c
  cases h with
  | last => exact .inl ⟨rfl, rfl⟩
  | @token _ token rest front extent text after =>
    cases rest with
    | nil => cases after
    | cons next rest =>
      exact .inr ⟨after, ⟨extent, Nat.le_refl _, Nat.le_refl _⟩, rfl, text⟩

private theorem Taken.edge_lt (h : Taken c c') : c.current.span.start < c'.previous.stop :=
  Nat.lt_of_lt_of_le h.extent h.back

/-- A token that was taken stays taken. -/
theorem Taken.trans (h : Taken first c) (hc : Sited source c) (h' : c' = c ∨ Taken c c') :
    Taken first c' := by
  rcases h' with rfl | h'
  · exact h
  · have hfront := hc.front
    have hedge := h.edge_lt
    exact ⟨h.extent, by have := h'.front; omega, by have := h.back; have := h'.edge_lt; omega⟩

/-- Tokens are taken in the order of the source. -/
def spanLaw (source : String) : Law Cursor where
  Moves c c' := Sited source c → Sited source c' ∧ (c' = c ∨ Taken c c')
  Refuses _ _ := True
  refl _ h := ⟨h, .inl rfl⟩
  trans {a b c} hab hbc ha := by
    obtain ⟨hb, hab⟩ := hab ha
    obtain ⟨hc, hbc⟩ := hbc hb
    refine ⟨hc, ?_⟩
    rcases hab with rfl | hab
    · exact hbc
    · exact .inr (hab.trans hb hbc)
  advance c h := by
    rcases h.advance with ⟨he, -⟩ | ⟨hs, ht, -⟩
    · exact ⟨he.symm ▸ h, .inl he⟩
    · exact ⟨hs, .inr ht⟩
  unexpected _ _ := trivial
  unsupported _ _ := trivial
  build _ := trivial

/-! ## What has been read since a production started -/

variable {α β : Type} {t : Prop} {trees : List SourceTree}

/-- The cursor came from `first`, and the trees that were read on the way make a row. Whether a
token has been taken for sure is told by `t`. -/
structure After (source : String) (first : Cursor) (t : Prop) (trees : List SourceTree)
    (c : Cursor) : Prop where
  origin : Sited source first
  sited : Sited source c
  moved : c = first ∨ Taken first c
  taken : t → Taken first c
  row : Row source first.current.span.start c.previous.stop trees

/-- At the start nothing has been read. -/
theorem After.start (h : Sited source first) : After source first False [] first :=
  ⟨h, h, .inl rfl, False.elim, .nil⟩

/-- Further tokens do not matter for what has been read. -/
theorem After.move (h : After source first t trees c) (hs : Sited source c')
    (hm : c' = c ∨ Taken c c') : After source first t trees c' := by
  refine ⟨h.origin, hs, ?_, fun ht => (h.taken ht).trans h.sited hm, ?_⟩
  · rcases h.moved with rfl | hc
    · exact hm
    · exact .inr (hc.trans h.sited hm)
  · refine h.row.widen (Nat.le_refl _) ?_
    rcases hm with rfl | hm
    · exact Nat.le_refl _
    · exact Nat.le_trans h.sited.front (Nat.le_of_lt hm.edge_lt)

/-- What is read after something else goes on with the row. -/
theorem After.append {t' : Prop} {trees' : List SourceTree} (h : After source first t trees c)
    (h' : After source c t' trees' c') : After source first (t ∨ t') (trees ++ trees') c' := by
  have hmove := h.move h'.sited h'.moved
  have htaken (hc : Taken c c') : Taken first c' := by
    rcases h.moved with rfl | hf
    · exact hc
    · exact hf.trans h.sited (.inr hc)
  have hfront : first.current.span.start ≤ c.current.span.start := by
    rcases h.moved with rfl | hf
    · exact Nat.le_refl _
    · exact Nat.le_trans (Nat.le_of_lt hf.edge_lt) h.sited.front
  exact ⟨h.origin, h'.sited, hmove.moved, fun ht => ht.elim hmove.taken (htaken ∘ h'.taken),
    (h.row.widen (Nat.le_refl _) h.sited.front).append hmove.row h'.row hfront⟩

/-- Less may be said of whether a token was taken. -/
theorem After.imp {t' : Prop} (h : After source first t trees c) (ht : t' → t) :
    After source first t' trees c :=
  ⟨h.origin, h.sited, h.moved, h.taken ∘ ht, h.row⟩

/-- A tree that is missing has no place, so it may be put before the others. -/
theorem After.absent (h : After source first t trees c) :
    After source first t (.absent :: trees) c :=
  ⟨h.origin, h.sited, h.moved, h.taken, .absent h.row⟩

/-- A node takes the place of the row of its children. -/
theorem After.node {kind : NodeKind String SourceTree} (h : After source first True trees c)
    (hrow : ∀ {lo hi}, Row source lo hi trees → Row source lo hi kind.occupants)
    (hword : kind.word? = none) :
    After source first True [.node (first.current.span.merge c.previous) kind] c := by
  have htaken := h.taken trivial
  have hspan : first.current.span.merge c.previous =
      ⟨first.current.span.start, c.previous.stop⟩ := by
    rw [Span.merge, Nat.min_eq_left htaken.front, Nat.max_eq_right htaken.back]
  refine ⟨h.origin, h.sited, h.moved, h.taken, ?_⟩
  rw [hspan]
  exact .node (Nat.le_refl _) htaken.edge_lt (Nat.le_refl _) (by simp [hword]) (hrow h.row) .nil

/-- A token that goes into no node of its own. -/
theorem After.token (h : Sited source first) (hk : first.current.kind ≠ .endOfFile) :
    After source first True [] first.advance := by
  obtain ⟨hs, ht, -, -⟩ := h.advance.resolve_left fun hlast => hk hlast.2
  exact ⟨h, hs, .inr ht, fun _ => ht, .nil⟩

/-- A token that is a node on its own. -/
theorem After.leaf {kind : NodeKind String SourceTree} (h : Sited source first)
    (hk : first.current.kind ≠ .endOfFile) (hrow : kind.occupants = [])
    (hword : ∀ text ∈ kind.word?, text = first.current.text) :
    After source first True [.node first.current.span kind] first.advance := by
  obtain ⟨hs, ht, hprevious, htext⟩ := h.advance.resolve_left fun hlast => hk hlast.2
  refine ⟨h, hs, .inr ht, fun _ => ht, .node (Nat.le_refl _) ht.extent ?_ ?_ ?_ .nil⟩
  · exact Nat.le_of_eq (by rw [hprevious])
  · intro text hm
    rw [hword text hm, htext]
  · rw [hrow]
    exact .nil

/-! ## Steps of a production -/

/-! ### Where a production starts -/

section Start

variable {Q : α → Cursor → Prop}

private theorem gives_start {p : Parser Cursor α} (h : Sited source first)
    (hp : Gives (After source first False []) p Q) : Gives (· = first) p Q :=
  hp.of_imp fun _ hc => hc.symm ▸ .start h

private theorem gives_taking {k : Token → Parser Cursor α} (hs : Sited source first)
    (hk : first.current.kind ≠ .endOfFile)
    (h : Gives (After source first True []) (k first.current) Q) :
    Gives (· = first) (advance >>= k) Q := by
  rintro c rfl
  exact h c.advance (.token hs hk)

/-- A production that starts with a token of a class. -/
theorem gives_opening {kind : TokenKind} {expected : Expectation} {k : Token → Parser Cursor α}
    (hk : kind ≠ .endOfFile) (hs : Sited source first)
    (h : Gives (After source first True []) (k first.current) Q) :
    Gives (· = first) (expect kind expected >>= k) Q := by
  refine (gives_expect_first kind expected).bind fun token => ?_
  rintro c ⟨rfl, hkind, rfl⟩
  exact h _ (.token hs (hkind ▸ hk))

end Start

/-! ### What goes on after the start -/

/-- A step that builds nothing. -/
theorem gives_skip {p : Parser Cursor α} (h : Obeys (spanLaw source) p) :
    Gives (After source first t trees) p fun _ => After source first t trees := by
  intro c hc a c' hr
  have hmoves := h c
  rw [hr] at hmoves
  obtain ⟨hs, hm⟩ := hmoves hc.sited
  exact hc.move hs hm

/-- A node inside starts where the cursor is. -/
theorem gives_inner {Q : α → Cursor → Prop} {k : Span → Parser Cursor α}
    (h : ∀ c, After source first t trees c → Gives (· = c) (k c.current.span) Q) :
    Gives (After source first t trees) (currentSpan >>= k) Q :=
  fun c hc => h c hc c rfl

/-- What a node inside is made of goes on with the row around it. -/
theorem gives_outer {Q : α → Cursor → Prop} {p : Parser Cursor α} {trees' : List SourceTree}
    (hc : After source first t trees c)
    (h : Gives (After source first True (trees ++ trees')) p Q) :
    Gives (After source c True trees') p Q :=
  h.of_imp fun _ h => (hc.append h).imp .inr

/-- A token of a class. -/
theorem gives_expect {kind : TokenKind} {expected : Expectation} (hk : kind ≠ .endOfFile) :
    Gives (After source first t trees) (expect kind expected : Parser Cursor Token) fun _ =>
      After source first True trees := by
  intro c hc token c' hr
  obtain ⟨-, hkind, rfl⟩ := gives_expect_first kind expected c rfl token c' hr
  have htoken := hc.append (.token hc.sited (hkind ▸ hk))
  rw [List.append_nil] at htoken
  exact htoken.imp .inr

/-- A node of the trees that were read since a production started. -/
theorem gives_node {kind : NodeKind String SourceTree}
    (hrow : ∀ {lo hi}, Row source lo hi trees → Row source lo hi kind.occupants)
    (hword : kind.word? = none) :
    Gives (After source first True trees)
      (node first.current.span kind : Parser Cursor SourceTree) fun tree =>
        After source first True [tree] := by
  rintro c hc _ _ ⟨⟩
  exact hc.node hrow hword

/-- A production that builds one tree from the tokens it takes. -/
def Builds (source : String) (p : Parser Cursor SourceTree) : Prop :=
  ∀ first, Sited source first → Gives (· = first) p fun tree => After source first True [tree]

/-- A production that builds a tree adds it behind the trees read before. -/
theorem Builds.gives {p : Parser Cursor SourceTree} (h : Builds source p) :
    Gives (After source first t trees) p fun tree => After source first True (trees ++ [tree]) :=
  fun c hc tree c' hr => (hc.append (h c hc.sited c rfl tree c' hr)).imp .inr

private theorem Gives.forget {p : Parser Cursor α} {f : α → List SourceTree}
    (h : Gives (After source first t trees) p fun a => After source first True (f a)) :
    Gives (After source first t trees) p fun a => After source first t (f a) :=
  h.imp fun _ _ ha => ha.imp fun _ => trivial

private theorem Builds.offers {p : Parser Cursor SourceTree} (h : Builds source p) :
    Gives (After source first t trees) p fun tree => After source first t (trees ++ [tree]) :=
  h.gives.forget

/-- An empty slot. -/
theorem gives_absent :
    Gives (After source first t trees) (pure .absent : Parser Cursor SourceTree) fun tree =>
      After source first t (trees ++ [tree]) := by
  refine gives_pure fun c hc => ?_
  have habsent : After source c False [.absent] c := (After.start hc.sited).absent
  exact (hc.append habsent).imp .inl

private theorem gives_nil :
    Gives (After source first t trees) (pure [] : Parser Cursor (List SourceTree)) fun trees' =>
      After source first t (trees ++ trees') :=
  gives_pure fun _ hc => by rwa [List.append_nil]

private theorem gives_commaSeparated {item : Parser Cursor SourceTree} (h : Builds source item) :
    Gives (After source first t trees) (commaSeparated item) fun items =>
      After source first True (trees ++ items) := by
  refine .bind h.gives fun tree =>
    gives_repeating (I := fun items => After source first True (trees ++ items))
      (fun items => ?_) [tree]
  refine .bind (gives_skip (obeys_eatPunctuator .comma)) fun _ => .ite ?_
      (gives_pure fun _ hc => hc)
  exact .bind h.gives fun tree => gives_pure fun _ hc => by rwa [List.append_assoc] at hc

/-! ## Names, modifiers and types -/

private theorem builds_simpleName : Builds source simpleName := by
  intro first hs
  refine (gives_expect_first _ _).bind fun token => gives_pure ?_
  rintro c ⟨rfl, hk, rfl⟩
  exact .leaf hs (hk ▸ nofun) rfl (by simp [NodeKind.word?])

private theorem gives_qualifiedStep (name : SourceTree) :
    Gives (After source first True [name])
      (qualifiedStep first.current.span name : Parser Cursor (Option SourceTree)) fun next =>
        After source first True [next.getD name] := by
  refine .bind (gives_skip (obeys_checkPunctuator .dot)) fun _ => .bind
      (gives_skip (obeys_kindAt 1))
    fun _ => .ite ?_ (gives_pure fun _ hc => hc)
  exact .bind (gives_skip obeys_advance) fun _ => .bind builds_simpleName.gives fun last =>
    .bind (gives_node id rfl) fun _ => gives_pure fun _ hc => hc

private theorem builds_name : Builds source name := fun first hs =>
  gives_currentSpan (.bind (builds_simpleName first hs) fun tree =>
    gives_repeating (I := fun tree => After source first True [tree]) gives_qualifiedStep tree)

private theorem gives_dimensionStep (component : SourceTree) :
    Gives (After source first True [component])
      (dimensionStep first.current.span component : Parser Cursor (Option SourceTree)) fun next =>
        After source first True [next.getD component] := by
  refine .bind (gives_skip (obeys_checkPunctuator .lbracket)) fun _ =>
    .bind (gives_skip (obeys_kindAt 1)) fun _ => .ite ?_ (gives_pure fun _ hc => hc)
  exact .bind (gives_skip obeys_advance) fun _ => .bind (gives_skip obeys_advance) fun _ =>
    .bind (gives_node id rfl) fun _ => gives_pure fun _ hc => hc

private theorem gives_dimensions (component : SourceTree) :
    Gives (After source first True [component])
      (dimensions first.current.span component : Parser Cursor SourceTree) fun tree =>
        After source first True [tree] :=
  gives_repeating (I := fun tree => After source first True [tree]) gives_dimensionStep component

private theorem gives_leaf {kind : NodeKind String SourceTree} (hs : Sited source first)
    (hk : first.current.kind ≠ .endOfFile) (hrow : kind.occupants = [])
    (hword : ∀ text ∈ kind.word?, text = first.current.text) :
    Gives (· = first) (leaf kind : Parser Cursor SourceTree) fun tree =>
      After source first True [tree] := by
  rintro c rfl _ _ ⟨⟩
  exact .leaf hs hk hrow hword

private theorem gives_primitiveType {primitive : PrimitiveType} (hs : Sited source first)
    (hk : first.current.kind ≠ .endOfFile) :
    Gives (· = first) (primitiveType primitive : Parser Cursor SourceTree) fun tree =>
      After source first True [tree] := by
  rintro c rfl _ _ ⟨⟩
  exact .leaf hs hk rfl nofun

private theorem builds_type (allowVoid : Bool) : Builds source (type allowVoid) := by
  intro first hs
  refine gives_currentSpan (gives_currentKind ?_)
  split
  next hk =>
    exact .ite gives_unexpected
      (.bind (gives_primitiveType hs (hk ▸ nofun)) fun tree => gives_dimensions tree)
  next =>
    exact .bind (builds_name first hs) fun _ => .bind (gives_node id rfl) fun tree =>
      gives_dimensions tree
  next => exact gives_unexpected

/-! ## Expressions -/

section Expressions

variable {sub : Level → Parser Cursor SourceTree} (hsub : ∀ l, Builds source (sub l))

include hsub

private theorem gives_arguments :
    Gives (After source first t trees) (arguments sub) fun arguments =>
      After source first True (trees ++ arguments) := by
  refine .bind (gives_expect nofun) fun _ =>
    .bind (gives_skip (obeys_checkPunctuator .rparen)) fun _ =>
    .ite (.bind gives_nil fun _ => ?_) (.bind (gives_commaSeparated (hsub .expression)) fun _ => ?_)
  all_goals
    exact .bind (gives_skip (obeys_expectPunctuator .rparen)) fun _ => gives_pure fun _ hc => hc

omit hsub in
private theorem gives_typeLiteral (type : SourceTree) :
    Gives (After source first True [type])
      (typeLiteral first.current.span type : Parser Cursor SourceTree) fun tree =>
        After source first True [tree] :=
  .bind (gives_skip (obeys_expectPunctuator .dot)) fun _ =>
    .bind (gives_skip (obeys_expectKeyword .classWord)) fun _ => gives_node id rfl

omit hsub in
private theorem gives_qualifiedOperandStep (name : SourceTree) :
    Gives (After source first True [name])
      (qualifiedOperandStep first.current.span name : Parser Cursor (Option SourceTree)) fun next =>
        After source first True [next.getD name] :=
  .bind (gives_skip (obeys_kindAt 2)) fun _ =>
    .ite (gives_pure fun _ hc => hc) (gives_qualifiedStep name)

private theorem builds_nameOperand : Builds source (nameOperand sub) := by
  intro first hs
  refine gives_currentSpan (.bind (builds_simpleName first hs) fun tree =>
    .bind (gives_skip (obeys_checkPunctuator .lparen)) fun _ => .ite ?call ?name)
  case call =>
    refine .bind (gives_arguments hsub) fun _ => gives_node (fun h => ?_) rfl
    simpa [NodeKind.occupants, NodeKind.slots] using h.absent
  case name =>
    refine .bind (gives_repeating (I := fun tree => After source first True [tree])
      gives_qualifiedOperandStep tree) fun _ =>
      .bind (gives_skip (obeys_checkPunctuator .dot)) fun _ =>
        .bind (gives_skip (obeys_kindAt 1)) fun _ =>
          .ite (.bind (gives_node id rfl) fun type => gives_typeLiteral type) ?_
    refine .bind (gives_skip (obeys_checkPunctuator .lbracket)) fun _ =>
      .bind (gives_skip (obeys_kindAt 1)) fun _ => .ite ?_ (gives_pure fun _ hc => hc)
    exact .bind (gives_node id rfl) fun component => .bind (gives_dimensions component) fun type =>
      gives_typeLiteral type

private theorem builds_instanceCreation : Builds source (instanceCreation sub) := by
  intro first hs
  refine gives_opening nofun hs (.bind (gives_skip (obeys_check .identifier)) fun _ =>
    .ite gives_unsupported (gives_inner fun c hc => ?_))
  refine .bind (builds_name c hc.sited) fun _ => .bind (gives_node id rfl) fun type =>
    gives_outer hc ?_
  refine .bind (gives_skip (obeys_checkPunctuator .lbracket)) fun _ => .ite gives_unsupported ?_
  refine .bind (gives_arguments hsub) fun _ =>
    .bind (gives_skip (obeys_checkPunctuator .lbrace)) fun _ =>
      .ite gives_unsupported (gives_node (fun h => ?_) rfl)
  simpa [NodeKind.occupants, NodeKind.slots] using h

private theorem builds_primary : Builds source (primary sub) := by
  intro first hs
  refine gives_current ?_
  split
  next hk => exact gives_leaf hs (hk ▸ nofun) rfl (by simp [NodeKind.word?])
  next hk => exact gives_leaf hs (hk ▸ nofun) rfl (by simp [NodeKind.word?])
  next hk => exact gives_leaf hs (hk ▸ nofun) rfl (by simp [NodeKind.word?])
  next hk => exact gives_leaf hs (hk ▸ nofun) rfl nofun
  next hk => exact gives_leaf hs (hk ▸ nofun) rfl nofun
  next hk => exact gives_leaf hs (hk ▸ nofun) rfl nofun
  next hk => exact gives_leaf hs (hk ▸ nofun) rfl nofun
  next => exact builds_instanceCreation hsub first hs
  next hk =>
    exact .bind (gives_primitiveType hs (hk ▸ nofun)) fun component =>
      .bind (gives_dimensions component) fun type => gives_typeLiteral type
  next =>
    exact gives_start hs (.bind (gives_skip obeys_advance) fun _ => .bind (hsub .expression).gives
      fun _ => .bind (gives_skip (obeys_expectPunctuator .rparen)) fun _ => gives_node id rfl)
  next => exact builds_nameOperand hsub first hs
  next => exact gives_unexpected

private theorem gives_selectorStep (operand : SourceTree) :
    Gives (After source first True [operand]) (selectorStep sub first.current.span operand)
        fun next =>
      After source first True [next.getD operand] := by
  refine .bind (gives_skip (obeys_eatPunctuator .dot)) fun _ => .ite ?member ?_
  case member =>
    refine .bind builds_simpleName.gives fun _ => .bind (gives_skip (obeys_checkPunctuator .lparen))
      fun _ => .ite ?_ ?_
    · refine .bind (gives_arguments hsub) fun _ => .bind (gives_node (fun h => ?_) rfl) fun _ =>
        gives_pure fun _ hc => hc
      simpa [NodeKind.occupants, NodeKind.slots] using h
    · exact .bind (gives_node id rfl) fun _ => gives_pure fun _ hc => hc
  refine .bind (gives_skip (obeys_eatPunctuator .lbracket)) fun _ =>
    .ite ?_ (gives_pure fun _ hc => hc)
  exact .bind (hsub .expression).gives fun _ => .bind (gives_skip
      (obeys_expectPunctuator .rbracket))
    fun _ => .bind (gives_node id rfl) fun _ => gives_pure fun _ hc => hc

omit hsub in
private theorem gives_postfixStep (operand : SourceTree) :
    Gives (After source first True [operand])
      (postfixStep first.current.span operand : Parser Cursor (Option SourceTree)) fun next =>
        After source first True [next.getD operand] := by
  refine .bind (gives_skip obeys_currentKind) fun kind => ?_
  split
  · exact .bind (gives_skip obeys_advance) fun _ => .bind (gives_node id rfl) fun _ =>
      gives_pure fun _ hc => hc
  · exact gives_pure fun _ hc => hc

private theorem builds_postfixed : Builds source (postfixed sub) := fun first hs =>
  gives_currentSpan (.bind (builds_primary hsub first hs) fun operand =>
    .bind (gives_repeating (I := fun tree => After source first True [tree])
      (gives_selectorStep hsub) operand) fun selected =>
        gives_repeating (I :=
            fun tree => After source first True [tree]) gives_postfixStep selected)

private theorem builds_unary : Builds source (unary sub) := by
  intro first hs
  refine gives_currentSpan (gives_currentKind ?_)
  split
  · exact gives_start hs (.bind (gives_skip obeys_advance) fun _ => .bind (hsub .unary).gives
      fun _ =>
      gives_node id rfl)
  · refine .bind (gives_check _) fun _ => .bind gives_lookingAhead fun _ =>
      .ite (gives_start hs ?_) (builds_postfixed hsub first hs)
    exact .bind (gives_skip obeys_advance) fun _ => .bind (builds_type false).gives fun _ =>
      .bind (gives_skip (obeys_expectPunctuator .rparen)) fun _ => .bind (hsub .unary).gives
          fun _ =>
        gives_node id rfl

private theorem gives_binaryStep (least : Nat) (left : SourceTree) :
    Gives (After source first True [left]) (binaryStep sub least first.current.span left)
        fun next =>
      After source first True [next.getD left] := by
  refine .bind (gives_skip obeys_currentKind) fun kind => .ite ?_ ?_
  · exact .bind (gives_skip obeys_advance) fun _ => .bind (builds_type false).gives fun _ =>
      .bind (gives_node id rfl) fun _ => gives_pure fun _ hc => hc
  split
  · split
    · exact gives_pure fun _ hc => hc
    · exact .bind (gives_skip obeys_advance) fun _ => .bind (hsub _).gives fun _ =>
        .bind (gives_node id rfl) fun _ => gives_pure fun _ hc => hc
  · exact gives_pure fun _ hc => hc

private theorem builds_binary (least : Nat) : Builds source (binary sub least) := fun first hs =>
  gives_currentSpan (.bind (builds_unary hsub first hs) fun operand =>
    gives_repeating (I := fun tree => After source first True [tree]) (gives_binaryStep hsub least)
      operand)

private theorem builds_conditional : Builds source (conditional sub) := by
  intro first hs
  refine gives_currentSpan (.bind (builds_binary hsub 1 first hs) fun _ =>
    .bind (gives_skip (obeys_eatPunctuator .question)) fun _ => .ite ?_ (gives_pure fun _ hc => hc))
  exact .bind (hsub .expression).gives fun _ =>
    .bind (gives_skip (obeys_expectPunctuator .colon)) fun _ =>
      .bind (hsub .conditional).gives fun _ => gives_node id rfl

private theorem builds_assignment : Builds source (assignment sub) := by
  intro first hs
  refine gives_currentSpan (.bind (builds_conditional hsub first hs) fun _ =>
    .bind (gives_skip obeys_currentKind) fun kind => ?_)
  split
  · exact .bind (gives_skip obeys_advance) fun _ => .bind (hsub .expression).gives fun _ =>
      gives_node id rfl
  · exact gives_pure fun _ hc => hc

end Expressions

private theorem builds_level (depth : Nat) (l : Level) : Builds source (level depth l) := by
  induction depth generalizing l with
  | zero => exact fun _ _ => gives_unexpected
  | succ depth ih =>
    cases l with
    | expression => exact builds_assignment ih
    | conditional => exact builds_conditional ih
    | binary least => exact builds_binary ih least
    | unary => exact builds_unary ih

private theorem builds_expression : Builds source expression := fun first hs =>
  gives_bounded fun depth => builds_level depth .expression first hs

/-! ## Statements -/

private theorem gives_initializer :
    Gives (After source first t trees) (initializer : Parser Cursor SourceTree) fun tree =>
      After source first t (trees ++ [tree]) := by
  refine .bind (gives_skip (obeys_eatPunctuator .eq)) fun _ => .ite ?_ gives_absent
  exact .bind (gives_skip (obeys_checkPunctuator .lbrace)) fun _ =>
    .ite gives_unsupported builds_expression.offers

private theorem builds_fragment : Builds source fragment := fun first hs =>
  gives_currentSpan (.bind (builds_simpleName first hs) fun _ => .bind gives_initializer fun _ =>
    gives_node id rfl)

private theorem builds_localDeclaration : Builds source localDeclaration := by
  intro first hs
  refine gives_currentSpan (gives_start hs ?_)
  refine .bind (gives_skip obeys_modifiers) fun _ => .bind (builds_type false).gives fun _ =>
    .bind (gives_commaSeparated builds_fragment) fun _ => gives_node (fun h => ?_) rfl
  simpa [NodeKind.occupants, NodeKind.slots] using h

private theorem gives_condition :
    Gives (After source first t trees) (condition : Parser Cursor SourceTree) fun tree =>
      After source first True (trees ++ [tree]) :=
  .bind (gives_skip (obeys_expectPunctuator .lparen)) fun _ => .bind builds_expression.gives
      fun _ =>
    .bind (gives_skip (obeys_expectPunctuator .rparen)) fun _ => gives_pure fun _ hc => hc

private theorem gives_forInitializers :
    Gives (After source first t trees)
      (forInitializers : Parser Cursor (List SourceTree)) fun initializers =>
        After source first t (trees ++ initializers) := by
  refine .bind gives_lookingAhead fun _ => .ite ?declaration ?_
  case declaration =>
    exact .bind builds_localDeclaration.offers fun _ =>
      .bind (gives_skip (obeys_checkPunctuator .colon)) fun _ =>
        .ite gives_unsupported (gives_pure fun _ hc => hc)
  exact .bind (gives_skip (obeys_checkPunctuator .semicolon)) fun _ =>
    .ite gives_nil ((gives_commaSeparated builds_expression).forget)

private theorem gives_optionalExpression (stop : Punctuator) :
    Gives (After source first t trees)
      (optionalExpression stop : Parser Cursor SourceTree) fun tree =>
        After source first t (trees ++ [tree]) :=
  .bind (gives_skip (obeys_checkPunctuator stop))
      fun _ => .ite gives_absent builds_expression.offers

private theorem gives_optionalExpressions (stop : Punctuator) :
    Gives (After source first t trees)
      (optionalExpressions stop : Parser Cursor (List SourceTree)) fun items =>
        After source first t (trees ++ items) :=
  .bind (gives_skip (obeys_checkPunctuator stop)) fun _ =>
    .ite gives_nil ((gives_commaSeparated builds_expression).forget)

private theorem builds_returnStatement : Builds source returnStatement := fun _ hs =>
  gives_opening nofun hs (.bind (gives_optionalExpression .semicolon) fun _ =>
    .bind (gives_skip (obeys_expectPunctuator .semicolon)) fun _ => gives_node id rfl)

private theorem builds_throwStatement : Builds source throwStatement := fun _ hs =>
  gives_opening nofun hs (.bind builds_expression.gives fun _ =>
    .bind (gives_skip (obeys_expectPunctuator .semicolon)) fun _ => gives_node id rfl)

private theorem builds_keywordStatement {keyword : Keyword} {kind : NodeKind String SourceTree}
    (hrow : kind.occupants = []) (hword : kind.word? = none) :
    Builds source (keywordStatement keyword kind) := fun first hs =>
  gives_opening nofun hs (.bind (gives_skip (obeys_expectPunctuator .semicolon)) fun _ =>
    gives_node (fun h => by rwa [hrow]) hword)

private theorem builds_plainStatement : Builds source plainStatement := by
  intro first hs
  refine gives_currentSpan (.bind gives_lookingAhead fun _ => .ite ?_ ?_)
  · exact .bind (builds_localDeclaration first hs) fun _ =>
      .bind (gives_skip (obeys_expectPunctuator .semicolon)) fun _ => gives_pure fun _ hc => hc
  · exact .bind (builds_expression first hs) fun _ =>
      .bind (gives_skip (obeys_expectPunctuator .semicolon)) fun _ => gives_node id rfl

section Statements

variable {statement : Parser Cursor SourceTree} (h : Builds source statement)

include h

private theorem gives_blockStep (statements : List SourceTree) :
    Gives (After source first True (trees ++ statements)) (blockStep statement statements)
        fun next =>
      After source first True (trees ++ next.getD statements) := by
  refine .bind (gives_skip (obeys_checkPunctuator .rbrace)) fun _ =>
    .ite (gives_pure fun _ hc => hc) ?_
  refine .bind (gives_skip (obeys_check .endOfFile)) fun _ => .ite gives_unexpected ?_
  exact .bind h.gives fun _ => gives_pure fun _ hc => by rwa [List.append_assoc] at hc

private theorem builds_block : Builds source (block statement) := by
  intro first hs
  refine gives_opening nofun hs (.bind (gives_repeating
    (I := fun statements => After source first True ([] ++ statements)) (gives_blockStep h) [])
      fun _ => .bind (gives_skip (obeys_expectPunctuator .rbrace)) fun _ =>
        gives_node (fun h => ?_) rfl)
  simpa [NodeKind.occupants, NodeKind.slots] using h

private theorem builds_forStatement : Builds source (forStatement statement) := by
  intro first hs
  refine gives_opening nofun hs (.bind (gives_skip (obeys_expectPunctuator .lparen)) fun _ =>
    .bind gives_forInitializers fun _ =>
      .bind (gives_skip (obeys_expectPunctuator .semicolon)) fun _ => ?_)
  refine .bind (gives_optionalExpression .semicolon) fun _ =>
    .bind (gives_skip (obeys_expectPunctuator .semicolon)) fun _ =>
      .bind (gives_optionalExpressions .rparen) fun _ => ?_
  refine .bind (gives_skip (obeys_expectPunctuator .rparen)) fun _ => .bind h.gives fun _ =>
    gives_node (fun h => ?_) rfl
  simpa [NodeKind.occupants, NodeKind.slots] using h

private theorem builds_ifStatement : Builds source (ifStatement statement) := by
  intro first hs
  refine gives_opening nofun hs (.bind gives_condition fun _ => .bind h.gives fun _ =>
    .bind (gives_skip (obeys_eatKeyword .elseWord)) fun _ => .ite ?_ ?_)
  · exact .bind h.gives fun _ => gives_node id rfl
  · exact .bind gives_absent fun _ => gives_node id rfl

private theorem builds_whileStatement : Builds source (whileStatement statement) := fun _ hs =>
  gives_opening nofun hs (.bind gives_condition fun _ => .bind h.gives fun _ => gives_node id rfl)

private theorem builds_doStatement : Builds source (doStatement statement) := fun _ hs =>
  gives_opening nofun hs (.bind h.gives fun _ =>
    .bind (gives_skip (obeys_expectKeyword .whileWord)) fun _ => .bind gives_condition fun _ =>
      .bind (gives_skip (obeys_expectPunctuator .semicolon)) fun _ => gives_node id rfl)

private theorem builds_statementStep : Builds source (statementStep statement) := by
  intro first hs
  refine gives_currentKind ?_
  split
  · exact builds_block h first hs
  next hk => exact gives_leaf hs (hk ▸ nofun) rfl nofun
  · exact builds_ifStatement h first hs
  · exact builds_whileStatement h first hs
  · exact builds_doStatement h first hs
  · exact builds_forStatement h first hs
  · exact builds_returnStatement first hs
  · exact builds_keywordStatement rfl rfl first hs
  · exact builds_keywordStatement rfl rfl first hs
  · exact builds_throwStatement first hs
  · exact gives_unsupported
  · exact gives_unsupported
  · exact builds_plainStatement first hs

end Statements

private theorem builds_statement : Builds source statement := by
  intro first hs
  refine gives_bounded fun depth => ?_
  induction depth generalizing first with
  | zero => exact gives_unexpected
  | succ depth ih => exact builds_statementStep ih first hs

/-! ## Declarations -/

private theorem builds_parameter : Builds source parameter := by
  intro first hs
  refine gives_currentSpan (gives_start hs ?_)
  exact .bind (gives_skip obeys_modifiers) fun _ => .bind (builds_type false).gives fun _ =>
    .bind (gives_skip (obeys_eatPunctuator .ellipsis)) fun _ => .bind builds_simpleName.gives
        fun _ =>
      gives_node id rfl

private theorem gives_parameters :
    Gives (After source first t trees) (parameters : Parser Cursor (List SourceTree))
        fun parameters =>
      After source first True (trees ++ parameters) := by
  refine .bind (gives_expect nofun) fun _ =>
    .bind (gives_skip (obeys_checkPunctuator .rparen)) fun _ =>
    .ite (.bind gives_nil fun _ => ?_) (.bind (gives_commaSeparated builds_parameter) fun _ => ?_)
  all_goals
    exact .bind (gives_skip (obeys_expectPunctuator .rparen)) fun _ => gives_pure fun _ hc => hc

private theorem gives_methodRest (modifiers : Modifiers) (constructor : Bool)
    (returnType name : SourceTree) :
    Gives (After source first t [returnType, name])
      (methodRest modifiers constructor returnType name first.current.span :
        Parser Cursor SourceTree) fun tree => After source first True [tree] := by
  refine .bind gives_parameters fun _ => .bind (gives_skip (obeys_checkIdentifier "throws"))
      fun _ =>
    .ite gives_unsupported (.bind (gives_skip (obeys_eatPunctuator .semicolon)) fun _ => .ite ?_ ?_)
  · refine .bind gives_absent fun _ => gives_node (fun h => ?_) rfl
    simpa [NodeKind.occupants, NodeKind.slots] using h
  · refine .bind (builds_block builds_statement).gives fun _ => gives_node (fun h => ?_) rfl
    simpa [NodeKind.occupants, NodeKind.slots] using h

section Members

variable {member : Parser Cursor SourceTree} (h : Builds source member)

include h

private theorem gives_memberStep (members : List SourceTree) :
    Gives (After source first True (trees ++ members)) (memberStep member members) fun next =>
      After source first True (trees ++ next.getD members) := by
  refine .bind (gives_skip (obeys_checkPunctuator .rbrace)) fun _ =>
    .ite (gives_pure fun _ hc => hc) ?_
  refine .bind (gives_skip (obeys_check .endOfFile)) fun _ => .ite gives_unexpected ?_
  refine .bind (gives_skip (obeys_eatPunctuator .semicolon)) fun _ =>
    .ite (gives_pure fun _ hc => hc) ?_
  exact .bind h.gives fun _ => gives_pure fun _ hc => by rwa [List.append_assoc] at hc

private theorem gives_typeDeclaration (modifiers : Modifiers) :
    Gives (After source first t []) (typeDeclaration member modifiers first.current.span)
        fun tree =>
      After source first True [tree] := by
  refine .bind (gives_skip (obeys_eatKeyword .interfaceWord)) fun interface =>
    .ite (.bind (gives_skip (obeys_expectKeyword .classWord)) fun _ => ?_) ?_
  all_goals
    refine .bind builds_simpleName.gives fun name =>
      .bind (gives_skip (obeys_eatKeyword .extendsWord)) fun _ =>
        .ite (.bind (builds_type false).gives fun superclass => ?_)
          (.bind gives_absent fun superclass => ?_)
  all_goals
    refine .bind (gives_skip (obeys_checkIdentifier "implements"))
        fun _ => .ite gives_unsupported ?_
    refine .bind (gives_skip (obeys_expectPunctuator .lbrace)) fun _ => .bind (gives_repeating
      (I := fun members => After source first True ([name, superclass] ++ members))
      (gives_memberStep h) []) fun _ => .bind (gives_skip (obeys_expectPunctuator .rbrace)) fun _ =>
        gives_node (fun h => ?_) rfl
    simpa [NodeKind.occupants, NodeKind.slots] using h

omit h in
private theorem gives_typedMember (modifiers : Modifiers) :
    Gives (After source first t [])
      (typedMember modifiers first.current.span : Parser Cursor SourceTree) fun tree =>
        After source first True [tree] := by
  refine .bind (builds_type true).gives fun type => .bind (gives_skip (obeys_kindAt 1)) fun _ =>
    .ite ?_ ?_
  · exact .bind builds_simpleName.gives fun name => gives_methodRest modifiers false type name
  · refine .bind (gives_commaSeparated builds_fragment) fun _ =>
      .bind (gives_skip (obeys_expectPunctuator .semicolon)) fun _ => gives_node (fun h => ?_) rfl
    simpa [NodeKind.occupants, NodeKind.slots] using h

private theorem builds_memberDeclaration : Builds source (memberDeclaration member) := by
  intro first hs
  refine gives_currentSpan (gives_start hs (.bind (gives_skip obeys_modifiers) fun modifiers =>
    .bind (gives_skip obeys_currentKind) fun kind => ?_))
  split
  · exact gives_typeDeclaration h modifiers
  · exact gives_typeDeclaration h modifiers
  · exact gives_unsupported
  · refine .bind (gives_skip (obeys_kindAt 1)) fun _ => .ite ?_ (gives_typedMember modifiers)
    exact .bind builds_simpleName.gives fun name =>
      (gives_methodRest modifiers true .absent name).of_imp fun _ hc => hc.absent

end Members

private theorem builds_member : Builds source member := by
  intro first hs
  refine gives_bounded fun depth => ?_
  induction depth generalizing first with
  | zero => exact gives_unexpected
  | succ depth ih => exact builds_memberDeclaration ih first hs

private theorem builds_importDeclaration : Builds source importDeclaration := by
  intro first hs
  refine gives_opening nofun hs (.bind (gives_skip (obeys_eatKeyword (.modifier .staticFlag)))
      fun _ =>
    .bind builds_name.gives fun _ => .bind (gives_skip (obeys_checkPunctuator .dot)) fun _ =>
      .bind (gives_skip (obeys_kindAt 1)) fun _ => .ite
        (.bind (gives_skip obeys_advance) fun _ => .bind (gives_skip obeys_advance) fun _ => ?_) ?_)
  all_goals
    exact .bind (gives_skip (obeys_expectPunctuator .semicolon)) fun _ => gives_node id rfl

private theorem gives_package :
    Gives (After source first t trees) (package : Parser Cursor SourceTree) fun tree =>
      After source first t (trees ++ [tree]) := by
  refine gives_guarded (fun c hc hk => ?_) gives_absent
  refine Gives.imp (Q := fun tree => After source c True [tree]) ?_
      fun _ _ h => (hc.append h).imp .inl
  exact gives_taking hc.sited (hk ▸ nofun) (.bind builds_name.gives fun _ =>
    .bind (gives_skip (obeys_expectPunctuator .semicolon)) fun _ => gives_node id rfl)

private theorem gives_importStep (imports : List SourceTree) :
    Gives (After source first t (trees ++ imports))
      (importStep imports : Parser Cursor (Option (List SourceTree))) fun next =>
        After source first t (trees ++ next.getD imports) := by
  refine .bind (gives_skip (obeys_check _)) fun _ => .ite ?_ (gives_pure fun _ hc => hc)
  exact .bind builds_importDeclaration.offers fun _ => gives_pure fun _ hc => by
    rwa [List.append_assoc] at hc

private theorem gives_typeStep (types : List SourceTree) :
    Gives (After source first t (trees ++ types))
      (typeStep types : Parser Cursor (Option (List SourceTree))) fun next =>
        After source first t (trees ++ next.getD types) := by
  refine .bind (gives_skip (obeys_check .endOfFile)) fun _ => .ite (gives_pure fun _ hc => hc) ?_
  refine .bind (gives_skip (obeys_eatPunctuator .semicolon)) fun _ =>
    .ite (gives_pure fun _ hc => hc) ?_
  refine gives_inner fun c hc => gives_start hc.sited ?_
  refine .bind (gives_skip obeys_modifiers) fun modifiers =>
    .bind (gives_typeDeclaration builds_member modifiers) fun _ => gives_outer hc ?_
  refine gives_pure fun _ hc => ?_
  rw [List.append_assoc] at hc
  exact hc.imp fun _ => trivial

/-- The node of a source file, for which no token may have been taken. -/
theorem After.placed {kind : NodeKind String SourceTree} (h : After source first t kind.occupants c)
    (hfirst : first.previous = .nowhere) (hword : kind.word? = none) :
    Placed source (.node (first.current.span.merge c.previous) kind) := by
  have hrow := h.row
  rcases h.moved with rfl | htaken
  -- in a source without tokens the node reaches from the start to the end of the source
  · obtain ⟨-, hback⟩ := h.origin.back
    rw [hfirst] at hrow ⊢
    have hspan : c.current.span.merge .nowhere = ⟨0, c.current.span.stop⟩ := by
      simp [Span.merge, Span.nowhere]
    rw [hspan]
    exact .node (Nat.zero_le _) hback (by simp [hword])
      (hrow.widen (Nat.zero_le _) (Nat.zero_le _))
  · rw [Span.merge, Nat.min_eq_left htaken.front, Nat.max_eq_right htaken.back]
    exact .node (Nat.le_of_lt htaken.edge_lt) h.sited.le (by simp [hword]) hrow

private theorem gives_compilationUnit (hs : Sited source first)
    (hfirst : first.previous = .nowhere) :
    Gives (· = first) (compilationUnit : Parser Cursor SourceTree) fun tree _ =>
      Placed source tree := by
  refine gives_currentSpan (gives_start hs (.bind gives_package fun package => ?_))
  refine .bind (gives_repeating
    (I := fun imports => After source first False ([package] ++ imports)) gives_importStep [])
      fun imports => .bind (Gives.of_imp (gives_repeating
        (I := fun types => After source first False ([package] ++ imports ++
            types)) gives_typeStep [])
          fun _ hc => by rwa [List.append_nil]) fun types => ?_
  rintro c hc _ _ ⟨⟩
  refine After.placed (t := False) ?_ hfirst rfl
  simpa [NodeKind.occupants, NodeKind.slots] using hc

/-- What a goal is read as stands where it was read from. -/
theorem gives_production (goal : Goal) (hs : Sited source first)
    (hfirst : first.previous = .nowhere) :
    Gives (· = first) (goal.production : Parser Cursor SourceTree) fun tree _ =>
      Placed source tree := by
  cases goal with
  | compilationUnit => exact gives_compilationUnit hs hfirst
  | expression =>
    intro c hc tree c' hr
    have hafter := builds_expression first hs c hc tree c' hr
    exact hafter.row.placed hafter.sited.le tree List.mem_cons_self

/-- A tree that is read from tokens in order is placed among them. -/
private theorem placed_of_parseTokens {goal : Goal} {tokens : List Token} {tree : SourceTree}
    (ht : InOrder source 0 tokens) (h : parseTokens goal tokens = .ok tree) :
    Placed source tree := by
  have hs : Sited source (.ofTokens tokens) := ht
  have hwhole : Gives (· = .ofTokens tokens) (whole goal : Parser Cursor SourceTree) fun tree _ =>
      Placed source tree :=
    .bind (gives_production goal hs rfl) fun _ => .bind (gives_check _) fun _ =>
      .ite (gives_pure fun _ hc => hc) gives_unexpected
  rw [parseTokens] at h
  cases hr : (whole goal).run (Cursor.ofTokens tokens) with
  | error error last =>
    rw [hr] at h
    cases h
  | ok result last =>
    rw [hr] at h
    cases h
    exact hwhole _ rfl _ _ hr

/-- The nodes of a tree that was read nest in each other as their ranges do, and names and literals
are what stands in their ranges. -/
theorem placed_of_parseTreeWith {wide : Char → Bool} {goal : Goal} {tree : SourceTree}
    (h : parseTreeWith wide goal source = .ok tree) : Placed source tree := by
  rw [parseTreeWith] at h
  cases ht : tokenizeWith wide source with
  | error error =>
    rw [ht] at h
    cases h
  | ok tokens =>
    rw [ht] at h
    exact placed_of_parseTokens
      (inOrder_of_tiles (tiles_of_tokensFrom (Lexer.tokensFrom_of_tokenizeWith ht))) h

end JavaFold.Grammar
