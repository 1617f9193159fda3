import Monkey.Syntax.Node

/-!
# Trees as outlines

An outline shows a tree as labelled branches and leaves, and prints with one item
to a line, each level indented by two blanks.  A branch whose only child is a leaf
has it on its own line, behind a tab.

## Main definitions

* `Outline` — branches and leaves.
* `Node.outline` — the outline of a tree.
* `Outline.print` — its lines.
-/

namespace Monkey

/-- The sorts of leaf. -/
inductive Outline.Sort
  | ident
  | int
  | boolean
  | string
  | op
  deriving DecidableEq, Repr

/-- The name of a sort of leaf. -/
def Outline.Sort.name : Outline.Sort → String
  | ident => "IDENT"
  | int => "INT"
  | boolean => "BOOLEAN"
  | string => "STRING"
  | op => "OP"

/-- Labelled branches, and leaves with a text. -/
inductive Outline
  | leaf (sort : Outline.Sort) (text : String)
  | branch (label : String) (children : List Outline)
  deriving Repr, Inhabited

/-! ### The outline of a tree -/

namespace Node

mutual

/-- The outline of a tree. -/
def outline : Node → Outline
  | missing => .branch "missing" []
  | bare _ => .branch "" []
  | program statements => .branch "program" (outlines statements)
  | letStatement _ name value => .branch "let" [outline name, outline value]
  | returnStatement _ value => .branch "return" [outline value]
  | expressionStatement _ expression => .branch "expr_stmt" [outline expression]
  | block _ statements => .branch "block" (outlines statements)
  | identifier _ name => .leaf .ident name
  | integer _ value => .leaf .int (toString value)
  | boolean token _ => .leaf .boolean token.literal
  | string _ value => .leaf .string value
  | prefixed _ operator right => .branch "prefix" [.leaf .op operator, outline right]
  | infixed _ left operator right =>
    .branch "infix" [outline left, .leaf .op operator, outline right]
  | conditional _ condition consequence alternative =>
    .branch "if" (outline condition :: outline consequence ::
      if alternative.isMissing then [] else [outline alternative])
  | function _ parameters body =>
    .branch "fn" [.branch "params" (outlines parameters), outline body]
  | call _ callee arguments =>
    .branch "call" [outline callee, .branch "args" (outlines arguments)]
  | array _ elements => .branch "array" (outlines elements)
  | hash _ pairs => .branch "hash" (outlinePairs pairs)
  | index _ left subscript => .branch "index" [outline left, outline subscript]

/-- The outlines of some trees. -/
def outlines : List Node → List Outline
  | [] => []
  | n :: ns => outline n :: outlines ns

/-- The outlines of the pairs of a hash. -/
def outlinePairs : List (Node × Node) → List Outline
  | [] => []
  | (key, value) :: pairs =>
    .branch "pair" [outline key, outline value] :: outlinePairs pairs

end

end Node

/-! ### Printing -/

namespace Outline

/-- The blanks in front of an item. -/
def indent (level : Nat) : String :=
  String.ofList (List.replicate (2 * level) ' ')

mutual

/-- The lines of an outline at a level. -/
def printAt (level : Nat) : Outline → String
  | leaf _ text => indent level ++ text ++ "\n"
  | branch label [leaf _ text] => indent level ++ label ++ "\t" ++ text ++ "\n"
  | branch label children => indent level ++ label ++ "\n" ++ printAll (level + 1) children

/-- The lines of some outlines at a level. -/
def printAll (level : Nat) : List Outline → String
  | [] => ""
  | o :: os => printAt level o ++ printAll level os

end

/-- The lines of an outline. -/
def print (o : Outline) : String :=
  o.printAt 0

end Outline

end Monkey
