import Monkey.Evaluation.Basic

/-!
# Builtins

The functions that are always there.  An array is never changed: `rest` and `push` make
new ones.

## Main definitions

* `Builtin.apply` — a builtin on its arguments.
-/

namespace Monkey.Builtin

open Evaluation

/-- A builtin of one argument. -/
def onOne (f : Value → Evaluation Value) : List Value → Evaluation Value
  | [v] => f v
  | vs => raise (.argumentCount vs.length 1)

/-- A builtin of one array. -/
def onArray (b : Builtin) (f : List Value → Evaluation Value) : Value → Evaluation Value
  | .array _ elements => f elements
  | v => raise (.notArray b v.kind)

/-- The number of characters of a string or of elements of an array. -/
def length : Value → Evaluation Value
  | .string s => return .integer s.length
  | .array _ elements => return .integer elements.length
  | v => raise (.noLength v.kind)

/-- An array without its first element; null if there is none. -/
def restOf : List Value → Evaluation Value
  | [] => return .null
  | _ :: elements => return .array (← issue) elements

/-- An array with one more element at its end. -/
def pushOnto : List Value → Evaluation Value
  | [.array _ elements, v] => return .array (← issue) (elements ++ [v])
  | [v, _] => raise (.notArray push v.kind)
  | vs => raise (.argumentCount vs.length 2)

/-- Prints values, one to a line. -/
def printAll (depth : Nat) : List Value → Evaluation Value
  | [] => return .null
  | v :: vs => do
    printLine depth v
    printAll depth vs

/-- A builtin on its arguments, which may have `depth` levels if they are printed. -/
def apply (depth : Nat) : Builtin → List Value → Evaluation Value
  | first => onOne <| onArray first fun elements => return elements.head?.getD .null
  | last => onOne <| onArray last fun elements => return elements.getLast?.getD .null
  | len => onOne length
  | push => pushOnto
  | puts => printAll depth
  | rest => onOne <| onArray rest restOf

end Monkey.Builtin
