import Monkey.Evaluation.Eval

/-!
# Evaluation with exceptions

Evaluation once more, in a monad in which errors and the results of `return` are thrown.
Nothing asks whether a value is a signal: what is thrown goes past everything behind it.  A
`return` is caught where a function was called and at a program, and nowhere else; an error
is caught by no construct at all.

## Main definitions

* `Interruption`, `Throwing` — what is thrown, and evaluations that throw.
* `Throwing.catchReturn` — the place at which a `return` ends.
* `Throwing.eval` — the evaluation of a tree in a scope.
* `Throwing.observe` — what is seen from outside: what nothing has caught is the result.
-/

namespace Monkey

/-- What ends an evaluation before it has a result. -/
inductive Interruption
  /-- It has no value in the language. -/
  | stopped (why : Stop)
  | failed (id : Identity) (fault : Fault)
  | returned (id : Identity) (value : Value)
  deriving Repr

/-- Evaluations that throw. -/
abbrev Throwing := EStateM Interruption Store

namespace Throwing

variable {α : Type}

/-- An evaluation that gives no signals. -/
def lift (e : Evaluation α) : Throwing α := fun s =>
  match e s with
  | .ok a s' => .ok a s'
  | .error why s' => .error (.stopped why) s'

/-- Throws the error of a fault. -/
def raise (fault : Fault) : Throwing α := do
  throw (.failed (← lift Evaluation.issue) fault)

/-- The result of an operator, with a fault thrown. -/
def settle : Except Fault Value → Throwing Value
  | .ok v => return v
  | .error fault => raise fault

/-- Ends a `return` that is thrown, and gives its operand. -/
def catchReturn (give : Value → α) (t : Throwing α) : Throwing α :=
  tryCatch t fun
    | .returned _ v => return give v
    | interruption => throw interruption

/-! ### Builtins -/

/-- A builtin of one argument. -/
def onOne (f : Value → Throwing Value) : List Value → Throwing Value
  | [v] => f v
  | vs => raise (.argumentCount vs.length 1)

/-- A builtin of one array. -/
def onArray (b : Builtin) (f : List Value → Throwing Value) : Value → Throwing Value
  | .array _ elements => f elements
  | v => raise (.notArray b v.kind)

/-- The number of characters of a string or of elements of an array. -/
def length : Value → Throwing Value
  | .string s => return .integer s.length
  | .array _ elements => return .integer elements.length
  | v => raise (.noLength v.kind)

/-- An array with one more element at its end. -/
def pushOnto : List Value → Throwing Value
  | [.array _ elements, v] => return .array (← lift Evaluation.issue) (elements ++ [v])
  | [v, _] => raise (.notArray .push v.kind)
  | vs => raise (.argumentCount vs.length 2)

/-- A builtin on its arguments, which may have `depth` levels if they are printed. -/
def applyBuiltin (depth : Nat) : Builtin → List Value → Throwing Value
  | .first => onOne <| onArray .first fun elements => return elements.head?.getD .null
  | .last => onOne <| onArray .last fun elements => return elements.getLast?.getD .null
  | .len => onOne length
  | .push => pushOnto
  | .puts => fun vs => lift (Builtin.printAll depth vs)
  | .rest => onOne <| onArray .rest fun elements => lift (Builtin.restOf elements)

/-! ### Constructs -/

/-- Evaluations of trees in scopes. -/
abbrev Evaluator := Node → ScopeId → Throwing (Option Value)

section Constructs

variable (eval : Evaluator)

/-- The value of a part; no value counts as null. -/
def value (n : Node) (scope : ScopeId) : Throwing Value :=
  return (← eval n scope).getD .null

/-- The values of some parts. -/
def values (scope : ScopeId) : List Node → Throwing (List Value)
  | [] => return []
  | n :: ns => do
    let v ← value eval n scope
    let vs ← values scope ns
    return v :: vs

/-- The entries of a hash literal behind those that it has already. -/
def entries (scope : ScopeId) : List (Node × Node) → List (Value × Value) →
    Throwing (List (Value × Value))
  | [], done => return done
  | (key, val) :: pairs, done => do
    let k ← value eval key scope
    if k.key?.isNone then raise (.unusableKey k.kind)
    else
      let v ← value eval val scope
      entries scope pairs (Value.putEntry done k v)

/-- The call of a function in a new scope, or of a builtin. -/
def apply (depth : Nat) (callee : Value) (arguments : List Value) : Throwing Value :=
  match callee with
  | .function _ parameters body closure => do
    let scope ← lift (Evaluation.enter closure parameters arguments)
    catchReturn id (value eval body scope)
  | .builtin b => applyBuiltin depth b arguments
  | v => raise (.notFunction v.kind)

/-- Statements in a row give the result of the last one. -/
def runStatements (scope : ScopeId) : List Node → Option Value → Throwing (Option Value)
  | [], last => return last
  | n :: ns, _ => do
    let result ← eval n scope
    runStatements scope ns result

/-- The value of a name: that of the nearest scope that binds it, or else a builtin. -/
def identifier (name : String) (scope : ScopeId) : Throwing Value := do
  match (← get).lookup scope name with
  | some v => return v
  | none =>
    match Builtin.ofName? name with
    | some b => return .builtin b
    | none => raise (.identifierNotFound name)

/-- A tree whose parts are evaluated by `eval`. -/
def evalNode (depth : Nat) (n : Node) (scope : ScopeId) : Throwing (Option Value) :=
  match n with
  | .missing => return none
  | .bare _ => throw (.stopped .noMeaning)
  | .program statements => catchReturn some (runStatements eval scope statements none)
  | .block _ statements => runStatements eval scope statements none
  | .expressionStatement _ expression => eval expression scope
  | .letStatement _ name val => do
    let v ← value eval val scope
    if name.isPresent then lift (Evaluation.bindName scope name v)
    return none
  | .returnStatement _ val => do
    let v ← value eval val scope
    throw (.returned (← lift Evaluation.issue) v)
  | .identifier _ name => some <$> identifier name scope
  | .integer _ n => return some (.integer n)
  | .boolean _ b => return some (.boolean b)
  | .string _ s => return some (.string s)
  | .prefixed _ operator right => do
    let r ← value eval right scope
    some <$> settle (Value.applyPrefix operator r)
  | .infixed _ left operator right => do
    let l ← value eval left scope
    let r ← value eval right scope
    some <$> settle (Value.applyInfix operator l r)
  | .conditional _ condition consequence alternative => do
    let c ← value eval condition scope
    if c.isTruthy then eval consequence scope
    else if alternative.isMissing then return some .null
    else eval alternative scope
  | .function token parameters body => do
    let body := if body.isMissing then .block token [] else body
    return some (.function (← lift Evaluation.issue) parameters body scope)
  | .call _ callee arguments => do
    let f ← value eval callee scope
    let vs ← values eval scope arguments
    some <$> apply eval depth f vs
  | .array _ elements => do
    let vs ← values eval scope elements
    return some (.array (← lift Evaluation.issue) vs)
  | .hash _ pairs => do
    let es ← entries eval scope pairs []
    return some (.hash (← lift Evaluation.issue) es)
  | .index _ left subscript => do
    let l ← value eval left scope
    let i ← value eval subscript scope
    some <$> settle (l.subscript i)

end Constructs

/-- The evaluation of a tree in a scope, with parts and calls nested to a depth at
most. -/
def eval : Nat → Evaluator
  | 0, _, _ => throw (.stopped .tooDeep)
  | depth + 1, n, scope => evalNode (eval depth) depth n scope

/-- What is seen from outside: an error or a `return` that nothing has caught is the result,
and what has no value in the language stops the whole. -/
def observe : EStateM.Result Interruption Store (Option Value) →
    EStateM.Result Stop Store (Option Value)
  | .ok result s => .ok result s
  | .error (.stopped why) s => .error why s
  | .error (.failed id fault) s => .ok (some (.error id fault)) s
  | .error (.returned id v) s => .ok (some (.returned id v)) s

end Throwing

end Monkey
