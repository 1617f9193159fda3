import Monkey.Evaluation.Builtin

/-!
# Evaluation of syntax trees

A tree is evaluated in a scope.  Parts are evaluated from left to right, and the first
signal ends the whole: it is the result of whatever it arose in, up to the function that
was called, which takes a `return` out of its wrapper, or up to the program.

Every construct is written over the evaluation of its parts, `eval`, so that only the
last definition, `Evaluation.eval`, is recursive: on the depth to which parts and calls
may be nested.

## Main definitions

* `Evaluation.operand` — goes on with the value of a part unless that is a signal.
* `Evaluation.apply` — the call of a function or a builtin.
* `Evaluation.eval` — the evaluation of a tree in a scope.
-/

namespace Monkey.Evaluation

/-- Evaluations of trees in scopes.  A `let`, an empty block and a missing part give no
value. -/
abbrev Evaluator := Node → ScopeId → Evaluation (Option Value)

section Constructs

variable (eval : Evaluator)

/-! ### Parts -/

/-- The value of a part; no value counts as null. -/
def value (n : Node) (scope : ScopeId) : Evaluation Value :=
  return (← eval n scope).getD .null

/-- Goes on with the value of a part, unless it is a signal. -/
def operand (n : Node) (scope : ScopeId) (k : Value → Evaluation (Option Value)) :
    Evaluation (Option Value) := do
  let v ← value eval n scope
  if v.isSignal then return some v else k v

/-- The values of some parts, or the first signal. -/
def values (scope : ScopeId) : List Node → Evaluation (Except Value (List Value))
  | [] => return .ok []
  | n :: ns => do
    let v ← value eval n scope
    if v.isSignal then return .error v
    else
      match ← values scope ns with
      | .error signal => return .error signal
      | .ok vs => return .ok (v :: vs)

/-- The entries of a hash literal behind those that it has already, or the first signal.
A key is looked at before its value is evaluated. -/
def entries (scope : ScopeId) : List (Node × Node) → List (Value × Value) →
    Evaluation (Except Value (List (Value × Value)))
  | [], done => return .ok done
  | (key, val) :: pairs, done => do
    let k ← value eval key scope
    if k.isSignal then return .error k
    else if k.key?.isNone then return .error (← raise (.unusableKey k.kind))
    else
      let v ← value eval val scope
      if v.isSignal then return .error v
      else entries scope pairs (Value.putEntry done k v)

/-! ### Calls -/

/-- The call of a function in a new scope, or of a builtin. -/
def apply (depth : Nat) (callee : Value) (arguments : List Value) : Evaluation Value :=
  match callee with
  | .function _ parameters body closure => do
    let scope ← enter closure parameters arguments
    return (← value eval body scope).unwrapped
  | .builtin b => b.apply depth arguments
  | v => raise (.notFunction v.kind)

/-! ### Statements -/

/-- The statements of a program: a `return` ends it with its operand. -/
def runProgram (scope : ScopeId) : List Node → Option Value → Evaluation (Option Value)
  | [], last => return last
  | n :: ns, _ => do
    match ← eval n scope with
    | some (.returned _ v) => return some v
    | some (.error id fault) => return some (.error id fault)
    | result => runProgram scope ns result

/-- The statements of a block: a signal ends it. -/
def runBlock (scope : ScopeId) : List Node → Option Value → Evaluation (Option Value)
  | [], last => return last
  | n :: ns, _ => do
    let result ← eval n scope
    if result.any Value.isSignal then return result else runBlock scope ns result

/-! ### Names -/

/-- The value of a name: that of the nearest scope that binds it, or else a builtin. -/
def identifier (name : String) (scope : ScopeId) : Evaluation Value := do
  match (← get).lookup scope name with
  | some v => return v
  | none =>
    match Builtin.ofName? name with
    | some b => return .builtin b
    | none => raise (.identifierNotFound name)

/-! ### Trees -/

/-- A tree whose parts are evaluated by `eval`. -/
def evalNode (depth : Nat) (n : Node) (scope : ScopeId) : Evaluation (Option Value) :=
  match n with
  | .missing => return none
  | .bare _ => throw .noMeaning
  | .program statements => runProgram eval scope statements none
  | .block _ statements => runBlock eval scope statements none
  | .expressionStatement _ expression => eval expression scope
  | .letStatement _ name val =>
    operand eval val scope fun v => do
      if name.isPresent then bindName scope name v
      return none
  | .returnStatement _ val =>
    operand eval val scope fun v => return some (.returned (← issue) v)
  | .identifier _ name => some <$> identifier name scope
  | .integer _ n => return some (.integer n)
  | .boolean _ b => return some (.boolean b)
  | .string _ s => return some (.string s)
  | .prefixed _ operator right =>
    operand eval right scope fun r => some <$> settle (Value.applyPrefix operator r)
  | .infixed _ left operator right =>
    operand eval left scope fun l =>
      operand eval right scope fun r => some <$> settle (Value.applyInfix operator l r)
  | .conditional _ condition consequence alternative =>
    operand eval condition scope fun c =>
      if c.isTruthy then eval consequence scope
      else if alternative.isMissing then return some .null
      else eval alternative scope
  | .function token parameters body => do
    let body := if body.isMissing then .block token [] else body
    return some (.function (← issue) parameters body scope)
  | .call _ callee arguments =>
    operand eval callee scope fun f => do
      match ← values eval scope arguments with
      | .error signal => return some signal
      | .ok vs => some <$> apply eval depth f vs
  | .array _ elements => do
    match ← values eval scope elements with
    | .error signal => return some signal
    | .ok vs => return some (.array (← issue) vs)
  | .hash _ pairs => do
    match ← entries eval scope pairs [] with
    | .error signal => return some signal
    | .ok es => return some (.hash (← issue) es)
  | .index _ left subscript =>
    operand eval left scope fun l =>
      operand eval subscript scope fun i => some <$> settle (l.subscript i)

end Constructs

/-- The evaluation of a tree in a scope, with parts and calls nested to a depth at
most. -/
def eval : Nat → Evaluator
  | 0, _, _ => throw .tooDeep
  | depth + 1, n, scope => evalNode (eval depth) depth n scope

end Monkey.Evaluation
