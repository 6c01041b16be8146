import JavaFold.Proofs.Grammar.Sound.Declaration
import JavaFold.Proofs.Layout.Clause

/-!
# Writing and reading back

A source text that is read gives a tree that the grammar describes, made of words that can be cut
out again (`describes_of_parseTreeWith`). The text of such a tree is cut into the words of the tree,
which are read as the tree again, up to the places of its nodes (`parseTreeWith_of_describes`).
-/

namespace JavaFold

namespace Tree

variable {ι κ : Type}

/-! ## What is written does not depend on places -/

private theorem prefixOperator?_mapInfo (f : ι → κ) (tree : Tree ι) :
    (tree.mapInfo f).prefixOperator? = tree.prefixOperator? := by
  cases tree with
  | absent => rfl
  | node info kind =>
    rw [mapInfo_node]
    cases kind <;> rfl

private theorem marksList_map {f : ι → κ} {form : Form} {level : Nat} {trees : List (Tree ι)}
    (h : ∀ t ∈ trees, (t.mapInfo f).marks level = t.marks level) :
    marksList form level (trees.map (mapInfo f)) = marksList form level trees := by
  induction trees with
  | nil => rfl
  | cons t trees ih =>
    obtain ⟨ht, hrest⟩ := List.forall_mem_cons.mp h
    rw [List.map_cons, marksList, marksList, ht, ih hrest, tag?_mapInfo, List.isEmpty_map]

/-- What is written does not depend on what nodes carry. -/
theorem marks_mapInfo (f : ι → κ) (tree : Tree ι) (level : Nat) :
    (tree.mapInfo f).marks level = tree.marks level := by
  induction tree using byOccupants generalizing level with
  | absent => rfl
  | node info kind ih =>
    have hrow : ∀ (form : Form) (level : Nat) (trees : List (Tree ι)),
        (∀ t ∈ trees, t ∈ kind.occupants) →
          marksList form level (trees.map (mapInfo f)) = marksList form level trees :=
      fun form level trees h => marksList_map fun t ht => ih t (h t ht) level
    rw [mapInfo_node]
    cases kind <;>
      simp (disch := simp +contextual [NodeKind.occupants, NodeKind.slots]) [NodeKind.map,
        NodeKind.traverse, Id.run, pure, bind, marks, operatorGap, prefixOperator?_mapInfo, ih,
            hrow]

private theorem render?_eq (tree : Tree ι) :
    tree.render? = match tree.tag? with
      | none => some ""
      | some .compilationUnit => tree.text?.map endWithNewline
      | some _ => tree.text? := by
  cases tree with
  | absent => rfl
  | node info kind => cases kind <;> rfl

/-- The text does not depend on what nodes carry. -/
theorem render?_mapInfo (f : ι → κ) (tree : Tree ι) : (tree.mapInfo f).render? = tree.render? := by
  rw [render?_eq, render?_eq, tag?_mapInfo, text?, text?, marks_mapInfo]

private theorem selectsNumber_mapInfo (f : ι → κ) (tree : Tree ι) :
    (tree.mapInfo f).selectsNumber = tree.selectsNumber := by
  cases tree with
  | absent => rfl
  | node info kind =>
    rw [mapInfo_node]
    cases kind with
    | fieldAccess expression name | methodInvocation expression name arguments =>
      exact congrArg (· == some Tag.numberLiteral) (tag?_mapInfo f expression)
    | _ => rfl

/-- Whether a number is selected from does not depend on what nodes carry. -/
theorem selectsNoNumber_mapInfo {f : ι → κ} {tree : Tree ι} :
    (tree.mapInfo f).SelectsNoNumber ↔ tree.SelectsNoNumber := by
  simp [SelectsNoNumber, selectsNumber_mapInfo]

end Tree

namespace Grammar

variable {wide : Char → Bool} {goal : Goal} {tree : SourceTree} {tokens : List Token}
  {ws : List Word}

/-! ## Reading up to the end of the source -/

/-- A whole text is read blind to places. -/
theorem blind_whole (goal : Goal) : Blind Tree.bare (whole goal) (whole goal) :=
  (blind_production goal).bind fun _ => (blind_check .endOfFile).bind fun b =>
    .ite b (blind_pure _) (blind_unexpected _)

/-- Tokens parse to a tree if the whole production succeeds on them. -/
theorem parseTokens_eq_ok :
    parseTokens goal tokens = .ok tree ↔
      ∃ cursor, (whole goal).outcome (.ofTokens tokens) = some (tree, cursor) := by
  rw [parseTokens, Parser.outcome]
  cases (whole goal).run (Cursor.ofTokens tokens) <;> simp

/-- A whole text that is read has been read by the production of its goal. -/
theorem outcome_whole_eq_some {cursor cursor' : Cursor}
    (h : (whole goal).outcome cursor = some (tree, cursor')) :
    ∃ cursor', goal.production.outcome cursor = some (tree, cursor') := by
  rw [whole, outcome_bind] at h
  obtain ⟨⟨tree', middle⟩, hp, h⟩ := Option.bind_eq_some_iff.mp h
  rw [outcome_bind] at h
  obtain ⟨⟨b, last⟩, -, h⟩ := Option.bind_eq_some_iff.mp h
  cases b with
  | false => cases h
  | true =>
    cases h
    exact ⟨_, hp⟩

private theorem outcome_whole (h : Describes goal tree) :
    (whole goal).outcome (.reading tree.words) = some (tree.bare, .reading []) := by
  rw [whole, outcome_bind, outcome_production h]
  rfl

/-- Tokens without places are read as the words they stand for. -/
theorem bare_ofTokens (h : tokens.map Token.bare = tokensOf ws) :
    (Cursor.ofTokens tokens).bare = .reading ws :=
  congrArg (Cursor.mk .nowhere) h

private theorem describes_of_parseTokens {V : Word → Prop} (hV : Lexical V) (hws : ∀ w ∈ ws, V w)
    (ht : tokens.map Token.bare = tokensOf ws) (h : parseTokens goal tokens = .ok tree) :
    Describes goal tree.bare ∧ ∀ w ∈ tree.bare.words, V w := by
  obtain ⟨cursor, h⟩ := parseTokens_eq_ok.mp h
  have hblind := blind_whole goal (.ofTokens tokens)
  rw [h, bare_ofTokens ht] at hblind
  obtain ⟨cursor', hp⟩ := outcome_whole_eq_some hblind
  obtain ⟨rest, -, hwords, hd⟩ := production_gathers hV hws hp
  exact ⟨hd, hwords⟩

/-- Tokens that spell a tree of the grammar are read as that tree, wherever they stand. -/
theorem parseTokens_of_describes (h : Describes goal tree)
    (ht : tokens.map Token.bare = tokensOf tree.words) :
    ∃ tree', parseTokens goal tokens = .ok tree' ∧ tree'.bare = tree.bare := by
  have hblind := blind_whole goal (.ofTokens tokens)
  rw [bare_ofTokens ht, outcome_whole h] at hblind
  obtain ⟨⟨tree', cursor⟩, ho, he⟩ := Option.map_eq_some_iff.mp hblind.symm
  exact ⟨tree', parseTokens_eq_ok.mpr ⟨cursor, ho⟩, congrArg Prod.fst he⟩

/-! ## Source texts -/

private theorem lexical_lexeme (wide : Char → Bool) : Lexical (Lexer.Lexeme wide) :=
  ⟨fun _ => trivial, fun _ => trivial⟩

/-- A source that is read is cut into tokens, and the tokens are read. -/
theorem exists_tokens_of_parseTreeWith {source : String}
    (h : parseTreeWith wide goal source = .ok tree) :
    ∃ tokens, tokenizeWith wide source = .ok tokens ∧ parseTokens goal tokens = .ok tree := by
  rw [parseTreeWith] at h
  cases ht : tokenizeWith wide source with
  | error error =>
    rw [ht] at h
    cases h
  | ok tokens =>
    rw [ht] at h
    exact ⟨tokens, rfl, h⟩

/-- A source that is read gives a tree that the grammar describes, of words that can be cut out
again. -/
theorem describes_of_parseTreeWith {source : String}
    (h : parseTreeWith wide goal source = .ok tree) :
    Describes goal tree.bare ∧ ∀ w ∈ tree.bare.words, Lexer.Lexeme wide w := by
  obtain ⟨tokens, ht, hp⟩ := exists_tokens_of_parseTreeWith h
  obtain ⟨ws, hb, hws⟩ := Lexer.words_of_tokenizeWith ht
  exact describes_of_parseTokens (lexical_lexeme wide) hws hb hp

/-- A tree that the grammar describes is read back from its text, if the words of the tree can be
cut out. -/
theorem parseTreeWith_of_describes (h : Describes goal tree)
    (hw : ∀ w ∈ tree.words, Lexer.Lexeme wide w) (hn : tree.SelectsNoNumber) :
    ∃ text, tree.render? = some text ∧ (text.utf8ByteSize ≤ maxSourceBytes →
      ∃ tree', parseTreeWith wide goal text = .ok tree' ∧ tree'.bare = tree.bare) := by
  obtain ⟨marks, hlaid, hrender⟩ := h.laid hn
  obtain ⟨text, ht, hcuts⟩ := hlaid.cuts hw
  refine ⟨text, hrender.trans ht, fun hsize => ?_⟩
  obtain ⟨tokens, htokens, hb⟩ := hcuts.tokensFrom 0
  obtain ⟨tree', hparse, hbare⟩ := parseTokens_of_describes h hb
  refine ⟨tree', ?_, hbare⟩
  rw [parseTreeWith, tokenizeWith, if_neg (Nat.not_lt.mpr hsize), htokens]
  exact hparse

end Grammar

end JavaFold
