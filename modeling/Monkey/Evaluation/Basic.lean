import Monkey.Store
import Monkey.Value.Inspect
import Monkey.Value.Operator

/-!
# Evaluations

An evaluation works on the store, and gives a result or stops.  Errors and the results
of `return` are results: they are values.  What stops an evaluation has no value in the
language; the store is then left as it was at that moment, with all that was bound and
printed before.

## Main definitions

* `Evaluation` — evaluations.
* `Evaluation.issue`, `Evaluation.raise`, `Evaluation.settle` — new objects, and the
  result of an operator as a value.
* `Evaluation.printLine` — prints the text of a value.
* `Evaluation.bindName`, `Evaluation.enter` — bind a name, and the parameters of a call.
-/

namespace Monkey

/-- Evaluations: from a store to a result, or a stop, and a store. -/
abbrev Evaluation := EStateM Stop Store

namespace Evaluation

/-- The identity of a new object. -/
def issue : Evaluation Identity :=
  modifyGet fun s => (s.next, s.issue)

/-- The error of a fault. -/
def raise (fault : Fault) : Evaluation Value :=
  return .error (← issue) fault

/-- The result of an operator, with a fault made an error. -/
def settle : Except Fault Value → Evaluation Value
  | .ok v => return v
  | .error fault => raise fault

/-- Prints the text of a value that may have `depth` levels on a line. -/
def printLine (depth : Nat) (v : Value) : Evaluation Unit :=
  match v.inspect? depth with
  | .ok line => modify (·.print line)
  | .error why => throw why

/-! ### Names -/

/-- Binds the name that a node holds.  A name that is no text leaves nothing behind, as
nothing can ask for it. -/
def bindName (scope : ScopeId) (name : Node) (v : Value) : Evaluation Unit :=
  match name.content? with
  | some (.text text) => modify (·.bind scope text v)
  | some _ => return
  | none => throw (.nameless name.kind)

/-- Binds some names, one after another. -/
def bindNames (scope : ScopeId) : List (Node × Value) → Evaluation Unit
  | [] => return
  | (name, v) :: bs => do
    bindName scope name v
    bindNames scope bs

/-- A new scope around which `closure` lies, with parameters bound to arguments.  Arguments
without a parameter are dropped, and parameters without an argument stay unbound. -/
def enter (closure : ScopeId) (parameters : List Node) (arguments : List Value) :
    Evaluation ScopeId := do
  let scope ← modifyGet fun s => (s.size, s.addScope (some closure))
  bindNames scope (parameters.zip arguments)
  return scope

end Evaluation

end Monkey
