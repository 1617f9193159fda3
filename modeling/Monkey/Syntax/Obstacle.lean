import Monkey.Stop
import Monkey.Syntax.Outline
import Monkey.Syntax.Text

/-!
# What can stop a tree from being shown

A tree is shown only down to a depth, and a node of no kind has nothing to show.  A part
that is left out is shown as nothing, but an absent item of a list has no text.

## Main definitions

* `Node.textParts` — the parts of a node in the order in which their texts are made.
* `Node.textObstacle?`, `Node.outlineObstacle?` — what first stops a tree from being shown.
* `Node.text?`, `Node.outline?` — the text and the outline, unless something does.
-/

namespace Monkey.Node

/-- The parts of a node in the order in which their texts are made: that of a call has
its arguments made first. -/
def textParts : Node → List Node
  | call _ callee arguments => arguments ++ [callee].filter isPresent
  | n => n.children

/-- What first stops a tree that may have `depth` levels from being written as text.  An
absent part that is asked about is an item of a list. -/
def textObstacle? : Nat → Node → Option Stop
  | _, missing => some .gap
  | 0, _ => some .tooDeep
  | _ + 1, bare _ => some .noText
  | depth + 1, n => n.textParts.findSome? (textObstacle? depth)

/-- What first stops a tree that may have `depth` levels from being shown as an outline. -/
def outlineObstacle? : Nat → Node → Option Stop
  | _, missing => none
  | 0, _ => some .tooDeep
  | _ + 1, bare _ => some .noOutline
  | depth + 1, n => n.children.findSome? (outlineObstacle? depth)

/-- The text of a tree, unless something stops it. -/
def text? (depth : Nat) (n : Node) : Except Stop String :=
  match n.textObstacle? depth with
  | some why => .error why
  | none => .ok n.text

/-- The outline of a tree, unless something stops it. -/
def outline? (depth : Nat) (n : Node) : Except Stop Outline :=
  match n.outlineObstacle? depth with
  | some why => .error why
  | none => .ok n.outline

end Monkey.Node
