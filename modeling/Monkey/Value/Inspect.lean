import Monkey.Syntax.Obstacle
import Monkey.Value.Basic

/-!
# Values as text

The text in which a value is printed.  Strings stand without quotes, and a function
shows its parameters and the canonical text of its body.

## Main definitions

* `Value.inspect` — the text of a value.
* `Value.obstacle?`, `Value.inspect?` — what can stop a value from being shown, and its
  text unless something does.
* `Value.label?` — a short name for a function or a builtin.
-/

namespace Monkey.Value

mutual

/-- The text of a value. -/
def inspect : Value → String
  | integer n => toString n
  | boolean b => if b then "true" else "false"
  | null => "null"
  | string s => s
  | array _ elements => "[" ++ ", ".intercalate (inspectAll elements) ++ "]"
  | hash _ entries => "\x7b" ++ ", ".intercalate (inspectEntries entries) ++ "\x7d"
  | function _ parameters body _ =>
    "fn(" ++ ", ".intercalate (Node.texts parameters) ++ ") \x7b\n" ++ body.text ++ "\n\x7d"
  | builtin _ => "builtin function"
  | returned _ v => inspect v
  | error _ fault => "Error: " ++ fault.message

/-- The texts of some values. -/
def inspectAll : List Value → List String
  | [] => []
  | v :: vs => inspect v :: inspectAll vs

/-- The texts of the entries of a hash. -/
def inspectEntries : List (Value × Value) → List String
  | [] => []
  | (k, v) :: es => (inspect k ++ ": " ++ inspect v) :: inspectEntries es

end

theorem inspectAll_eq_map (vs : List Value) : inspectAll vs = vs.map inspect := by
  induction vs with
  | nil => rfl
  | cons v vs ih => simp [inspectAll, ih]

theorem inspectEntries_eq_map (es : List (Value × Value)) :
    inspectEntries es = es.map fun e => inspect e.1 ++ ": " ++ inspect e.2 := by
  induction es with
  | nil => rfl
  | cons e es ih => simp [inspectEntries, ih]

/-- What first stops a value that may have `depth` levels from being shown. -/
def obstacle? : Nat → Value → Option Stop
  | 0, _ => some .tooDeep
  | depth + 1, array _ elements => elements.findSome? (obstacle? depth)
  | depth + 1, hash _ entries =>
    entries.findSome? fun (k, v) => (obstacle? depth k).or (obstacle? depth v)
  | depth + 1, function _ parameters body _ =>
    (parameters ++ [body]).findSome? (Node.textObstacle? depth)
  | depth + 1, returned _ v => obstacle? depth v
  | _ + 1, _ => none

/-- The text of a value, unless something stops it. -/
def inspect? (depth : Nat) (v : Value) : Except Stop String :=
  match v.obstacle? depth with
  | some why => .error why
  | none => .ok v.inspect

/-! ### Labels -/

/-- What each parameter of a function holds for its name. -/
def contents? (parameters : List Node) : Except Stop (List Node.Content) :=
  parameters.mapM fun p =>
    match p.content? with
    | some content => .ok content
    | none => .error (.nameless p.kind)

/-- The names that some contents are; one that is no text is told by its position. -/
def names? (contents : List Node.Content) : Except Stop (List String) :=
  contents.zipIdx.mapM fun
    | (.text name, _) => .ok name
    | (content, position) => .error (.notText position content)

/-- A short name for a function, from the names of its parameters, or for a builtin; the
text of any other value. -/
def label? : Value → Except Stop String
  | function _ parameters _ _ => do
    let names := ", ".intercalate (← names? (← contents? parameters))
    return "<fn params=" ++ (if names.isEmpty then "nullary" else names) ++ ">"
  | builtin b => .ok ("<builtin " ++ b.name ++ ">")
  | v => .ok v.inspect

end Monkey.Value
