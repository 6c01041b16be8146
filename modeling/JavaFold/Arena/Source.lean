import JavaFold.Arena.Edit
import JavaFold.Grammar
import JavaFold.Layout

/-!
# Arenas from and to source text

A source text is read into a fresh arena: the productions of the grammar allocate the nodes as they
come to their ends, children first. An arena is written from its root or from any node.
-/

namespace JavaFold

/-- A state of reading into an arena. -/
structure Filling where
  /-- Where in the tokens the reading stands. -/
  cursor : Cursor
  /-- The arena that is being filled. -/
  arena : Arena

namespace Filling

instance : Reading Filling where
  cursor := cursor
  move filling place := { filling with cursor := place }
  cursor_move _ _ := rfl
  move_cursor _ := rfl
  move_move _ _ _ := rfl

/-- Change the arena while reading. -/
def edit {α : Type} (change : Edit α) : Parser Filling α := fun filling =>
  match change.run filling.arena with
  | .ok value arena => .ok value { filling with arena := arena }
  | .error violation arena => .error (.tree violation) { filling with arena := arena }

/-- Over an arena, nodes are handles. -/
instance : Builder Filling NodeId where
  absent := .absent
  build span kind := edit (.allocSpelled kind span)
  cursor_build span kind filling := by
    rw [EStateM.run, edit]
    cases (Edit.allocSpelled kind span).run filling.arena with
    | ok id arena => rfl
    | error violation arena => exact ⟨rfl, violation, rfl⟩

end Filling

namespace Arena

/-- Read a list of tokens into a fresh arena, and make what was read the root. The last token marks
the end of the source. -/
def fill (goal : Goal) (tokens : List Token) : EStateM.Result ParseError Filling Unit :=
  (do Filling.edit (.setRoot (← Grammar.whole goal))).run ⟨.ofTokens tokens, .empty⟩

/-- The arena of a source text, whose root is what the text was read as. Outside ASCII, `wide` tells
which characters belong to identifiers. -/
def parseWith (wide : Char → Bool) (goal : Goal) (source : String) : Except ParseError Arena := do
  match fill goal (← tokenizeWith wide source) with
  | .ok _ filling => return filling.arena
  | .error error _ => throw error

/-- The arena of a source text, identifiers being made of letters and numbers. -/
def parse (goal : Goal) (source : String) : Except ParseError Arena :=
  parseWith Text.isAlphanumeric goal source

/-- The text of the tree under the root, unless a child is missing. -/
def render? (arena : Arena) : Option String :=
  (arena.tree arena.root).render?

/-- The text of the tree under a node, unless a child is missing. -/
def renderNode? (arena : Arena) (id : NodeId) : Option String :=
  if arena.contains id then (arena.tree id).text? else some ""

end Arena

end JavaFold
