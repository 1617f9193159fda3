import Monkey.Syntax.Node

/-!
# Stops

What ends the work on a tree or a value before there is a result.  A program cannot bring
one about on purpose or catch it: the errors of the language are values.  All but the
first arise from trees made by hand only.

## Main definitions

* `Stop` — the causes, with `Stop.message`.
-/

namespace Monkey

/-- Why work on a tree or a value stops. -/
inductive Stop
  /-- There are more levels than the depth allows. -/
  | tooDeep
  /-- A node of no kind is evaluated. -/
  | noMeaning
  /-- A node of no kind is written as text. -/
  | noText
  /-- A node of no kind is shown as an outline. -/
  | noOutline
  /-- A list that is written as text has an absent item. -/
  | gap
  /-- A node is taken for a name, and holds nothing. -/
  | nameless (kind : Node.Kind)
  /-- A name that has to be listed, counted from 0, is no text. -/
  | notText (position : Nat) (content : Node.Content)
  deriving DecidableEq, Repr

/-- The wording of a stop. -/
def Stop.message : Stop → String
  | tooDeep => "maximum recursion depth exceeded"
  | noMeaning => "Unknown node: " ++ Node.Kind.bare.name
  | noText => ""
  | noOutline => "Unsupported node " ++ Node.Kind.bare.name
  | gap => "'" ++ Node.Kind.none.name ++ "' object has no attribute 'string'"
  | nameless kind => "'" ++ kind.name ++ "' object has no attribute 'value'"
  | notText position content =>
    "sequence item " ++ toString position ++ ": expected str instance, " ++ content.sort ++
      " found"

end Monkey
