import Monkey.Value.Basic

/-!
# Operators

Prefix and infix operators and indexing, on values.  Integers are those of a machine
word: results wrap around, and division truncates.  `==` and `!=` compare integers,
booleans and null by value and objects by identity; on two strings only `+` is defined.

## Main definitions

* `wrap64` — the signed 64-bit integer that a result wraps to.
* `Value.sameObject` — the equality of values other than integers and strings.
* `Value.applyPrefix`, `Value.applyInfix`, `Value.subscript` — the operators.
-/

namespace Monkey

/-- The integer from `-2 ^ 63` to `2 ^ 63 - 1` that is congruent to `n` modulo `2 ^ 64`. -/
def wrap64 (n : Int) : Int :=
  n.bmod 0x10000000000000000

namespace Value

/-- A prefix operator on its operand. -/
def applyPrefix (operator : String) (right : Value) : Except Fault Value :=
  match operator, right with
  | "!", _ => .ok (.boolean (!right.isTruthy))
  | "-", integer n => .ok (.integer (wrap64 (-n)))
  | _, _ => .error (.unknownPrefix operator right.kind)

/-- Whether two values are the same: booleans and null by value, objects by identity.
Values of different kinds never are. -/
def sameObject : Value → Value → Bool
  | boolean a, boolean b => a = b
  | null, null => true
  | array i _, array j _ => i = j
  | hash i _, hash j _ => i = j
  | function i _ _ _, function j _ _ _ => i = j
  | builtin a, builtin b => a = b
  | returned i _, returned j _ => i = j
  | error i _, error j _ => i = j
  | _, _ => false

/-- An infix operator on two integers. -/
def integerInfix (operator : String) (a b : Int) : Except Fault Value :=
  match operator with
  | "+" => .ok (.integer (wrap64 (a + b)))
  | "-" => .ok (.integer (wrap64 (a - b)))
  | "*" => .ok (.integer (wrap64 (a * b)))
  | "/" => if b = 0 then .error .divisionByZero else .ok (.integer (wrap64 (a.tdiv b)))
  | "<" => .ok (.boolean (a < b))
  | ">" => .ok (.boolean (b < a))
  | "==" => .ok (.boolean (a = b))
  | "!=" => .ok (.boolean (a ≠ b))
  | _ => .error (.unknownInfix .integer operator .integer)

/-- An infix operator on two strings. -/
def stringInfix (operator : String) (a b : String) : Except Fault Value :=
  match operator with
  | "+" => .ok (.string (a ++ b))
  | _ => .error (.unknownInfix .string operator .string)

/-- An infix operator on two values that are not both integers, nor both strings. -/
def otherInfix (operator : String) (left right : Value) : Except Fault Value :=
  match operator with
  | "==" => .ok (.boolean (left.sameObject right))
  | "!=" => .ok (.boolean (!left.sameObject right))
  | _ =>
    if left.kind = right.kind then .error (.unknownInfix left.kind operator right.kind)
    else .error (.typeMismatch left.kind operator right.kind)

/-- An infix operator on its operands. -/
def applyInfix (operator : String) : Value → Value → Except Fault Value
  | integer a, integer b => integerInfix operator a b
  | string a, string b => stringInfix operator a b
  | left, right => otherInfix operator left right

/-- The element of an array at an index, or the value of a hash under a key; null where
there is none. -/
def subscript : Value → Value → Except Fault Value
  | array _ elements, integer i =>
    .ok (if i < 0 then null else elements[i.toNat]?.getD null)
  | hash _ entries, k =>
    match k.key? with
    | none => .error (.unusableKey k.kind)
    | some key => .ok ((valueUnder? entries key).getD null)
  | left, _ => .error (.indexNotSupported left.kind)

end Value

end Monkey
