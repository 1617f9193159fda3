import Monkey.Token.Basic

/-!
# Binding levels

How tightly the operators bind, from the equalities, which bind least, to indexing.
The operators of one level group to the left.

## Main definitions

* `Level` — the levels, with `Level.rank` as their order.
* `Level.ofKind?` — the level of an operator that follows its left operand.
-/

namespace Monkey

/-- The binding levels. -/
inductive Level
  | lowest
  | equals
  | lessGreater
  | sum
  | product
  | prefixed
  | call
  | index
  deriving DecidableEq, Repr, Inhabited

namespace Level

/-- The place of a level in the order, from 1. -/
def rank : Level → Nat
  | lowest => 1
  | equals => 2
  | lessGreater => 3
  | sum => 4
  | product => 5
  | prefixed => 6
  | call => 7
  | index => 8

/-- The name under which a level is listed. -/
def name : Level → String
  | lowest => "LOWEST"
  | equals => "EQUALS"
  | lessGreater => "LESSGREATER"
  | sum => "SUM"
  | product => "PRODUCT"
  | prefixed => "PREFIX"
  | call => "CALL"
  | index => "INDEX"

/-- The level of a token that can follow a left operand. -/
def ofKind? : Token.Kind → Option Level
  | .eq | .notEq => some equals
  | .lt | .gt => some lessGreater
  | .plus | .minus => some sum
  | .slash | .asterisk => some product
  | .lparen => some call
  | .lbracket => some index
  | _ => none

/-- The level of a token; one that follows no operand has the lowest. -/
def ofKind (kind : Token.Kind) : Level :=
  (ofKind? kind).getD lowest

end Level

end Monkey
