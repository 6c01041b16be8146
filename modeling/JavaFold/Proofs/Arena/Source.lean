import JavaFold.Proofs.Arena.Filling
import JavaFold.Proofs.Grammar.Complete
import JavaFold.Proofs.Grammar.Law
import JavaFold.Proofs.Grammar.RoundTrip

/-!
# Arenas of source texts

A list of tokens is read into an arena as its tree is read, with the nodes of the tree put together
on the way (`Arena.fill_cases`). The tree has no gaps, so no allocation is refused, and neither is
the choice of the root, as long as there are handles. The arena then holds this tree and nothing
else (`Arena.Holds`).
-/

namespace JavaFold

/-! ## Refusals of the lexer and of the grammar -/

/-- Whether a source was refused because its nodes could not be put together. -/
def ParseError.isTree : ParseError → Bool
  | tree _ => true
  | _ => false

namespace Grammar

variable {wide : Char → Bool} {goal : Goal} {source : String} {tree : SourceTree}
  {error : ParseError}

/-- A production over trees is refused because of a token. -/
def refusesTokens : Law Cursor where
  Moves _ _ := True
  Refuses _ error := error.isTree = false
  refl _ := trivial
  trans _ _ := trivial
  advance _ := trivial
  unexpected _ _ := rfl
  unsupported _ _ := rfl
  build h := nomatch h

theorem obeys_whole {σ τ : Type} [Reading σ] [Builder σ τ] {law : Law σ} (goal : Goal) :
    Obeys law (whole goal) :=
  (obeys_production goal).bind fun _ => (obeys_check .endOfFile).bind fun _ =>
    .ite (obeys_pure _) (obeys_unexpected _)

private theorem isTree_of_parseTokens {tokens : List Token}
    (h : parseTokens goal tokens = .error error) :
    error.isTree = false := by
  have hobeys := (obeys_whole goal : Obeys refusesTokens _) (.ofTokens tokens)
  rw [parseTokens] at h
  cases hr : (whole goal).run (Cursor.ofTokens tokens) with
  | ok tree cursor => simp [hr] at h
  | error error' cursor =>
    rw [hr] at h hobeys
    cases h
    exact hobeys.2

/-- No error of the lexer is one about the tree. -/
private theorem isTree_of_tokensFrom {start : Nat} {input : List Char}
    (h : Lexer.tokensFrom wide start input = .error error) : error.isTree = false := by
  fun_induction Lexer.tokensFrom wide start input with
  | case1 => cases h
  | case2 start c input fault text hscan =>
    cases h
    cases fault <;> rfl
  | case3 start c input text rest stop _ _ _ ih => exact ih h
  | case4 start c input text rest stop kind _ _ _ ih =>
    cases ht : Lexer.tokensFrom wide stop rest with
    | ok tokens =>
      rw [ht] at h
      cases h
    | error error' =>
      rw [ht] at h
      cases h
      exact ih ht

private theorem isTree_of_tokenizeWith (h : tokenizeWith wide source = .error error) :
    error.isTree = false := by
  rw [tokenizeWith] at h
  split at h
  · cases h
    rfl
  · exact isTree_of_tokensFrom h

/-- Nothing is missing in the tree that a source is read as. -/
theorem complete_of_parseTreeWith (h : parseTreeWith wide goal source = .ok tree) :
    tree.Complete :=
  (describes_of_parseTreeWith h).1.complete.of_mapInfo

end Grammar

namespace Arena

variable {wide : Char → Bool} {goal : Goal} {source : String} {arena : Arena}

/-! ## How the reading into an arena ends -/

/-- The arena that is there when the reading of tokens has come to an end, a refusal included. -/
def filled (goal : Goal) (tokens : List Token) : Arena :=
  (Filling.last (fill goal tokens)).arena

/-- A tree whose nodes were allocated in a fresh arena is made the root, or for want of handles
there is none. -/
theorem run_setRoot_of_run_plant {tree : SourceTree} {id : NodeId} (ht : tree.Complete)
    (h : (Edit.plant tree).run .empty = .ok id arena) :
    (∃ arena', (Edit.setRoot id).run arena = .ok () arena' ∧ ofTree tree = .ok arena') ∨
    ∃ violation, (Edit.setRoot id).run arena = .error violation arena ∧
      NodeId.maxIndex < arena.size ∧ ofTree tree = .error violation := by
  rw [ofTree, Edit.run_bind_ok h, Edit.run_setRoot]
  by_cases hs : arena.size ≤ NodeId.maxIndex
  · have hends : Edit.Ends (Edit.plant tree) .empty
        (fun id arena => Planted .empty arena tree id) fun _ => False :=
      Edit.ends_plant (fun _ => ht) built_empty
    rw [Edit.Ends, h] at hends
    rw [((hends hs).holds ht).1]
    exact .inl ⟨_, rfl, rfl⟩
  · have hid := eq_absent_of_run_plant ht h (Nat.not_le.1 hs)
    have hcheck : arena.checkParentless id = .error (.absentNode id) := by
      rw [checkParentless, hid, require, node?_absent]
      rfl
    rw [hcheck]
    exact .inr ⟨_, rfl, Nat.not_le.1 hs, rfl⟩

/-- Reading tokens into an arena ends as reading their tree does, with the nodes of the tree put
together, or it is refused for want of handles. -/
theorem fill_cases (goal : Goal) (tokens : List Token) :
    (∃ tree filling, parseTokens goal tokens = .ok tree ∧ ofTree tree = .ok filling.arena ∧
      fill goal tokens = .ok () filling) ∨
    (∃ error filling, parseTokens goal tokens = .error error ∧
      fill goal tokens = .error error filling) ∨
    ∃ violation filling, fill goal tokens = .error (.tree violation) filling ∧
      NodeId.maxIndex < filling.arena.size ∧
      ∀ tree, parseTokens goal tokens = .ok tree → ofTree tree = .error violation := by
  have hwhole := follows_whole goal (.ofTokens tokens) .empty fun _ => built_empty
  have hsecure (tree : SourceTree) (ht : tree.Complete) :=
    Edit.secure_plant (fun _ => ht) .empty fun _ => built_empty
  rw [parseTokens, fill, EStateM.run_bind]
  cases htree : (Grammar.whole goal).run (Cursor.ofTokens tokens) with
  | error error cursor =>
    cases hq : (Grammar.whole goal : Parser Filling NodeId).run ⟨.ofTokens tokens, .empty⟩ with
    | ok id filling =>
      rw [htree, hq] at hwhole
      exact hwhole.elim
    | error error' filling =>
      rw [htree, hq] at hwhole
      obtain ⟨rfl, -⟩ | ⟨violation, rfl, hs⟩ := hwhole
      · exact .inr (.inl ⟨error', filling, rfl, rfl⟩)
      · refine .inr (.inr ⟨violation, filling, rfl, hs, ?_⟩)
        rintro tree ⟨⟩
  | ok tree cursor =>
    cases hq : (Grammar.whole goal : Parser Filling NodeId).run ⟨.ofTokens tokens, .empty⟩ with
    | error error filling =>
      rw [htree, hq] at hwhole
      obtain ⟨ht, violation, rfl, hplant⟩ := hwhole
      have hs := hsecure tree ht
      rw [hplant] at hs
      refine .inr (.inr ⟨violation, filling, rfl, hs, ?_⟩)
      rintro tree' ⟨⟩
      rw [ofTree, Edit.run_bind_error hplant]
    | ok id filling =>
      rw [htree, hq] at hwhole
      obtain ⟨ht, hplant, -⟩ := hwhole
      simp only [Filling.run_edit]
      rcases run_setRoot_of_run_plant ht hplant with
        ⟨arena', hroot, hok⟩ | ⟨violation, hroot, hs, hfailed⟩
      · rw [hroot]
        exact .inl ⟨tree, _, rfl, hok, rfl⟩
      · rw [hroot]
        refine .inr (.inr ⟨violation, _, rfl, hs, ?_⟩)
        rintro tree' ⟨⟩
        exact hfailed

private theorem parseWith_of_tokens {tokens : List Token}
    (h : tokenizeWith wide source = .ok tokens) :
    parseWith wide goal source = match fill goal tokens with
      | .ok _ filling => .ok filling.arena
      | .error error _ => .error error := by
  rw [parseWith, h]
  rfl

private theorem parseTreeWith_of_tokens {tokens : List Token}
    (h : tokenizeWith wide source = .ok tokens) :
    parseTreeWith wide goal source = parseTokens goal tokens := by
  rw [parseTreeWith, h]
  rfl

theorem parseWith_eq_ok :
    parseWith wide goal source = .ok arena ↔
      ∃ tree, parseTreeWith wide goal source = .ok tree ∧ ofTree tree = .ok arena := by
  cases ht : tokenizeWith wide source with
  | error error => simp [parseWith, parseTreeWith, ht, bind, Except.bind]
  | ok tokens =>
    rw [parseWith_of_tokens ht, parseTreeWith_of_tokens ht]
    rcases fill_cases goal tokens with ⟨tree, filling, htree, hok, hfill⟩ |
      ⟨error, filling, htree, hfill⟩ | ⟨violation, filling, hfill, -, hfailed⟩
    · simp [htree, hok, hfill]
    · simp [htree, hfill]
    · rw [hfill]
      constructor
      · rintro ⟨⟩
      · rintro ⟨tree, htree, hok⟩
        cases (hfailed tree htree).symm.trans hok

/-- The arena of a source holds the tree that the source is read as. -/
theorem holds_of_parseWith (h : parseWith wide goal source = .ok arena) :
    ∃ tree, parseTreeWith wide goal source = .ok tree ∧ arena.Holds tree := by
  obtain ⟨tree, ht, harena⟩ := parseWith_eq_ok.1 h
  refine ⟨tree, ht, ?_⟩
  rcases ofTree_cases (Grammar.complete_of_parseTreeWith ht) with
    ⟨-, arena', hok, hholds⟩ | ⟨-, violation, herror⟩
  · rw [harena] at hok
    cases hok
    exact hholds
  · rw [harena] at herror
    cases herror

/-- A source is refused by the lexer, by the grammar, or for want of handles for its nodes. -/
theorem parseWith_eq_error {error : ParseError} (h : parseWith wide goal source = .error error) :
    tokenizeWith wide source = .error error ∨
      ∃ tokens, tokenizeWith wide source = .ok tokens ∧
        (parseTokens goal tokens = .error error ∨
          NodeId.maxIndex < (filled goal tokens).size ∧ ∃ violation, error = .tree violation) := by
  cases ht : tokenizeWith wide source with
  | error error' =>
    rw [parseWith, ht] at h
    cases h
    exact .inl rfl
  | ok tokens =>
    rw [parseWith_of_tokens ht] at h
    refine .inr ⟨tokens, rfl, ?_⟩
    rcases fill_cases goal tokens with ⟨tree, filling, -, -, hfill⟩ |
      ⟨error', filling, htree, hfill⟩ | ⟨violation, filling, hfill, hs, -⟩
    · rw [hfill] at h
      cases h
    · rw [hfill] at h
      cases h
      exact .inl htree
    · rw [hfill] at h
      cases h
      rw [filled, hfill]
      exact .inr ⟨hs, violation, rfl⟩

/-- Reading a source puts one whole tree together: no node is refused as long as there are handles
for all that are allocated, up to a refusal of the source or up to its end. The tree under the root
is the one that was read, no node is left out of it, the root comes last, and children come before
their parents. -/
theorem parseWith_assembles (wide : Char → Bool) (goal : Goal) (source : String)
    (hs : ∀ tokens, tokenizeWith wide source = .ok tokens →
      (filled goal tokens).size ≤ NodeId.maxIndex) :
    (∀ violation, parseWith wide goal source ≠ .error (.tree violation)) ∧
    ∀ arena, parseWith wide goal source = .ok arena →
      parseTreeWith wide goal source = .ok (arena.spans arena.root) ∧
      (∀ id, arena.contains id = true → id ∈ arena.descendants arena.root) ∧
      arena.contains arena.root = true ∧ arena.root.index + 1 = arena.size ∧
      ∀ id children location child, arena.children? id = some children →
        (location, child) ∈ children → child.index < id.index := by
  constructor
  · intro violation h
    rcases parseWith_eq_error h with hlexer | ⟨tokens, ht, hgrammar | ⟨hmore, -⟩⟩
    · exact Bool.noConfusion (Grammar.isTree_of_tokenizeWith hlexer)
    · exact Bool.noConfusion (Grammar.isTree_of_parseTokens hgrammar)
    · exact Nat.not_lt.2 (hs tokens ht) hmore
  · intro arena h
    obtain ⟨tree, ht, hholds⟩ := holds_of_parseWith h
    have hl := hholds.built.linked
    obtain ⟨root, hroot⟩ := contains_iff.1 hholds.rooted
    refine ⟨hholds.spans ▸ ht, fun id hid => ?_, hholds.rooted, hholds.last, ?_⟩
    · obtain ⟨node, hn⟩ := contains_iff.1 hid
      exact (hl.mem_descendants_iff hroot).2 (hholds.covers (index_lt_of_node? hn))
    · intro id children location child hc hm
      obtain ⟨node, hn, rfl⟩ := Option.map_eq_some_iff.1 hc
      obtain ⟨cnode, hcn, -⟩ := hl.down hn hm
      exact hholds.built.ascending hn (NodeKind.mem_occupants_of_mem_children hm)
        (NodeId.isPresent_iff.1 (isPresent_of_node? hcn))

/-- A call with a parenthesized literal, in which a lookahead for a cast comes to nothing. -/
theorem parseWith_assembles_call :
    ∃ arena, parse .expression "f((1), (x))" = .ok arena ∧ arena.root = ⟨5⟩ ∧ arena.size = 6 ∧
      ∀ id, arena.contains id = true → id ∈ arena.descendants arena.root := by
  have hs : ∀ tokens, tokenizeWith Text.isAlphanumeric "f((1), (x))" = .ok tokens →
      (filled .expression tokens).size ≤ NodeId.maxIndex := by
    have hsmall : (match tokenizeWith Text.isAlphanumeric "f((1), (x))" with
        | .ok tokens => decide ((filled .expression tokens).size ≤ NodeId.maxIndex)
        | .error _ => true) = true := by
      decide +kernel
    intro tokens h
    simpa [h] using hsmall
  have hread : (match parse .expression "f((1), (x))" with
      | .ok arena => arena.root == ⟨5⟩ && arena.size == 6
      | .error _ => false) = true := by
    decide +kernel
  cases h : parse .expression "f((1), (x))" with
  | error error => simp [h] at hread
  | ok arena =>
    obtain ⟨hroot, hsize⟩ : arena.root = ⟨5⟩ ∧ arena.size = 6 := by simpa [h] using hread
    exact ⟨arena, rfl, hroot, hsize, ((parseWith_assembles _ _ _ hs).2 arena h).2.1⟩

end Arena

end JavaFold
