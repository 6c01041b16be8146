import JavaFold.ParseError
import JavaFold.Tree

/-!
# Reading tokens one after the other

A production reads tokens from the front of the remaining ones and puts nodes together, or is
refused. The last token marks the end of the source and is never taken. A refusal keeps the cursor
where it was raised.

What a production works on has a cursor (`Reading`) and a way to make a node out of a kind
(`Builder`). Over a cursor alone a node is a tree; over an arena it is a handle, and the arena grows
as the production goes on.

A production that repeats a step takes at least one token each time, so the number of tokens that
remain bounds the number of turns.
-/

namespace JavaFold

/-- A tree as it is read: every node carries the part of the source it was read from. -/
abbrev SourceTree := Tree Span

/-- The state of reading. -/
structure Cursor where
  /-- The range of the token taken last. -/
  previous : Span
  /-- The tokens that were not taken, the last of which marks the end of the source. -/
  rest : List Token
  deriving DecidableEq, Repr

namespace Cursor

/-- The state before any token is taken. -/
def ofTokens (tokens : List Token) : Cursor :=
  ⟨.nowhere, tokens⟩

/-- The next token. -/
def current (cursor : Cursor) : Token :=
  cursor.rest.headD (.endOfFile 0)

/-- The class of the token that is `n` tokens ahead. -/
def kindAt (cursor : Cursor) (n : Nat) : TokenKind :=
  match cursor.rest[n]? with
  | some token => token.kind
  | none => .endOfFile

/-- The state after the next token, the end of the source being never passed. -/
def advance (cursor : Cursor) : Cursor :=
  match cursor.rest with
  | token :: next :: rest => ⟨token.span, next :: rest⟩
  | _ => cursor

end Cursor

/-- A state of reading, of which a cursor is a part. -/
class Reading (σ : Type) where
  /-- Where in the tokens the reading stands. -/
  cursor : σ → Cursor
  /-- The state with the cursor in another place. -/
  move : σ → Cursor → σ
  /-- The cursor is where it was moved to. -/
  cursor_move : ∀ state place, cursor (move state place) = place
  /-- To move the cursor to where it is changes nothing. -/
  move_cursor : ∀ state, move state (cursor state) = state
  /-- Only the last move counts. -/
  move_move : ∀ state place last, move (move state place) last = move state last

/-- A reading of tokens in states of one sort that gives an `α` or is refused. -/
abbrev Parser (σ : Type) := EStateM ParseError σ

/-- A state of reading in which nodes are made. A made node is referred to by a `τ`. -/
class Builder (σ : Type) (τ : outParam Type) [Reading σ] where
  /-- What stands in a slot without a child. -/
  absent : τ
  /-- Make a node out of a kind whose children were made before. -/
  build : Span → NodeKind String τ → Parser σ τ
  /-- No token is taken for a node. -/
  cursor_build : ∀ span kind state, match (build span kind).run state with
    | .ok _ state' => Reading.cursor state' = Reading.cursor state
    | .error error state' =>
      Reading.cursor state' = Reading.cursor state ∧ ∃ violation, error = .tree violation

instance : Reading Cursor where
  cursor cursor := cursor
  move _ place := place
  cursor_move _ _ := rfl
  move_cursor _ := rfl
  move_move _ _ _ := rfl

/-- Over a cursor alone, nodes are trees. -/
instance : Builder Cursor SourceTree where
  absent := .absent
  build span kind := return .node span kind
  cursor_build _ _ _ := rfl

namespace Grammar

variable {σ τ α : Type} [Reading σ]

/-- Where in the tokens the reading stands. -/
def place : Parser σ Cursor :=
  return Reading.cursor (← get)

/-- Go to a place in the tokens. -/
def goTo (place : Cursor) : Parser σ Unit :=
  modify (Reading.move · place)

/-- The next token, which is left in place. -/
def current : Parser σ Token :=
  return (← place).current

/-- The class of the next token. -/
def currentKind : Parser σ TokenKind :=
  return (← place).current.kind

/-- The class of the token that is `n` tokens ahead. -/
def kindAt (n : Nat) : Parser σ TokenKind :=
  return (← place).kindAt n

/-- The range of the next token. -/
def currentSpan : Parser σ Span :=
  return (← place).current.span

/-- Take the next token. -/
def advance : Parser σ Token := do
  let place ← place
  goTo place.advance
  return place.current

/-- Refuse the next token, something else having been expected. -/
def unexpected (expected : Expectation) : Parser σ α := do
  throw (.unexpectedToken expected (← current))

/-- Refuse the construct that starts at the next token. -/
def unsupported (construct : Construct) : Parser σ α := do
  throw (.unsupported construct (← current))

/-- Whether the next token is of a class. -/
def check (kind : TokenKind) : Parser σ Bool :=
  return (← currentKind) == kind

/-- Whether the next token is a punctuator. -/
def checkPunctuator (punctuator : Punctuator) : Parser σ Bool :=
  check (.punctuator punctuator)

/-- Take the next token if it is of a class. -/
def eat (kind : TokenKind) : Parser σ Bool := do
  if ← check kind then
    let _ ← advance
    return true
  else
    return false

/-- Take the next token if it is a punctuator. -/
def eatPunctuator (punctuator : Punctuator) : Parser σ Bool :=
  eat (.punctuator punctuator)

/-- Take the next token if it is a reserved word. -/
def eatKeyword (keyword : Keyword) : Parser σ Bool :=
  eat (.keyword keyword)

/-- Take the next token, which has to be of a class. -/
def expect (kind : TokenKind) (expected : Expectation) : Parser σ Token := do
  if ← check kind then advance else unexpected expected

/-- Take the next token, which has to be a punctuator. -/
def expectPunctuator (punctuator : Punctuator) : Parser σ Token :=
  expect (.punctuator punctuator) (.punctuator punctuator)

/-- Take the next token, which has to be a reserved word. -/
def expectKeyword (keyword : Keyword) : Parser σ Token :=
  expect (.keyword keyword) (.keyword keyword)

/-- Take the next token, which has to be an identifier. -/
def expectIdentifier : Parser σ Token :=
  expect .identifier .identifier

/-- A node that reaches from `start` to the end of the token taken last. -/
def node [Builder σ τ] (start : Span) (kind : NodeKind String τ) : Parser σ τ := do
  Builder.build (start.merge (← place).previous) kind

/-- Repeat a step from a first value until it declines, at most `turns` times. -/
def iterate (step : α → Parser σ (Option α)) : Nat → α → Parser σ α
  | 0, value => return value
  | turns + 1, value => do
    match ← step value with
    | some next => iterate step turns next
    | none => return value

/-- Repeat a step from a first value until it declines. The step takes a token each time it does not
decline, so it cannot be repeated more often than there are tokens. -/
def repeating (step : α → Parser σ (Option α)) (first : α) : Parser σ α := do
  iterate step (← place).rest.length first

/-- One or more items with commas between them. -/
def commaSeparated (item : Parser σ α) : Parser σ (List α) := do
  let first ← item
  repeating (fun items => do
    if ← eatPunctuator .comma then
      return some (items ++ [← item])
    else
      return none) [first]

/-- Look ahead and go back, whatever was seen. -/
def lookingAhead (look : Parser σ α) : Parser σ α := do
  let start ← place
  let seen ← look
  goTo start
  return seen

/-- Run a production whose nesting is bounded by the number of tokens that remain. -/
def bounded (production : Nat → Parser σ α) : Parser σ α := do
  production (← place).rest.length

end Grammar

end JavaFold
