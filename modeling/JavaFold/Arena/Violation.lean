import JavaFold.Node.Id
import JavaFold.Node.Tag

/-!
# Refused changes

Why an operation on the nodes of an arena was refused. Every cause names the nodes involved. A
number that is too large for the word that is to hold it is no answer of an operation: the program
stops.
-/

namespace JavaFold

/-- Why an operation on an arena was refused. -/
inductive Violation where
  /-- The handle refers to no node of the arena. -/
  | absentNode (node : NodeId)
  /-- The node has no parent and is not the root. -/
  | detached (node : NodeId) (tag : Tag)
  /-- The node has a parent and no location in it. -/
  | missingLocation (node : NodeId) (tag : Tag) (parent : NodeId)
  /-- The node is the root, which sits in no slot. -/
  | rootHasNoSlot (node : NodeId) (tag : Tag)
  /-- The parent has no such location. -/
  | unsupportedLocation (parent : NodeId) (parentTag : Tag) (location : Location)
  /-- The parent holds another node at the location that the node claims. -/
  | slotMismatch (parent : NodeId) (location : Location) (node : NodeId)
  /-- The root was offered as a child. -/
  | rootAsChild (node : NodeId) (tag : Tag)
  /-- The node already has a parent. -/
  | alreadyAttached (node : NodeId) (tag : Tag) (parent : NodeId)
  /-- The slot has to hold a child. -/
  | requiredSlot (parent : NodeId) (parentTag : Tag) (location : Location)
  /-- The node would come to lie below itself. -/
  | wouldCycle (node target : NodeId)
  /-- A number is too large for the word that is to hold it, and the program stops. -/
  | overflow (number : Nat)
  deriving DecidableEq, Repr

namespace Violation

/-- There are more nodes than handles. -/
@[match_pattern] abbrev tooManyNodes (count : Nat) : Violation := overflow count

/-- A rule has made more rewrites than can be counted. -/
@[match_pattern] abbrev tooManyRewrites (count : Nat) : Violation := overflow count

/-- The wording of a refusal. -/
def message : Violation → String
  | absentNode node => s!"node {node.text} is absent from the tree"
  | detached node tag =>
    s!"node {node.text} ({tag.text}) is detached: it has no parent and is not the tree root"
  | missingLocation node tag parent =>
    s!"node {node.text} ({tag.text}) has parent {parent.text} but no location in it"
  | rootHasNoSlot node tag =>
    s!"node {node.text} ({tag.text}) is the tree root and has no slot in a parent"
  | unsupportedLocation parent parentTag location =>
    s!"location `{location.text}` is not supported on {parentTag.text} node {parent.text}"
  | slotMismatch parent location node =>
    s!"slot `{location.text}` of node {parent.text} does not hold node {node.text}"
  | rootAsChild node tag =>
    s!"node {node.text} ({tag.text}) is the tree root and cannot become a child"
  | alreadyAttached node tag parent =>
    s!"replacement node {node.text} ({tag.text}) is already attached to {parent.text}"
  | requiredSlot parent parentTag location =>
    s!"slot `{location.text}` of {parentTag.text} node {parent.text} is required " ++
      "and cannot be emptied"
  | wouldCycle node target =>
    s!"node {node.text} cannot replace {target.text}: it would create a cycle"
  | overflow number => s!"number too large ({number})"

end Violation

end JavaFold
