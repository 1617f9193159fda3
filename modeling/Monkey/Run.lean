import Monkey.Evaluation.Eval
import Monkey.Syntax.Parse

/-!
# Running a text

A text is parsed, and evaluated if there is no complaint.

## Main definitions

* `Outcome` — what comes of a text.
* `run` — runs a text in a scope.

## Main results

* `run_of_none`, `run_of_complaints`, `run_of_clean` — a text that goes too deep for the parser, one
  with complaints, and one without.
* `eval_of_finished` — what a text comes to is what its tree evaluates to.
-/

namespace Monkey

/-- What comes of a text that is run. -/
inductive Outcome
  /-- The parser complains, and nothing is evaluated. -/
  | refused (complaints : List Complaint)
  | stopped (why : Stop)
  | finished (result : Option Value)
  deriving Repr

/-- The outcome of an evaluation, and the store behind it. -/
def Evaluation.outcome (e : Evaluation (Option Value)) (s : Store) : Outcome × Store :=
  match e s with
  | .ok result s => (.finished result, s)
  | .error why s => (.stopped why, s)

/-- Runs a text in a scope. -/
def run (depth : Nat) (text : String) (scope : ScopeId) (s : Store) : Outcome × Store :=
  match parse depth text with
  | none => (.stopped .tooDeep, s)
  | some p =>
    if p.complaints.isEmpty then (Evaluation.eval depth p.program scope).outcome s
    else (.refused p.complaints, s)

section

variable {depth : Nat} {text : String} {p : Parsed}

theorem run_of_none (h : parse depth text = none) (scope : ScopeId) (s : Store) :
    run depth text scope s = (.stopped .tooDeep, s) := by
  rw [run, h]

theorem run_of_complaints (hp : parse depth text = some p) (h : p.complaints ≠ [])
    (scope : ScopeId) (s : Store) :
    run depth text scope s = (.refused p.complaints, s) := by
  simp [run, hp, h]

theorem run_of_clean (hp : parse depth text = some p) (h : p.complaints = []) (scope : ScopeId)
    (s : Store) :
    run depth text scope s = (Evaluation.eval depth p.program scope).outcome s := by
  simp [run, hp, h]

/-- A text that comes to a result was parsed without complaints, and its tree gave that result. -/
theorem eval_of_finished {scope : ScopeId} {s t : Store} {o : Option Value}
    (h : run depth text scope s = (.finished o, t)) :
    ∃ p, parse depth text = some p ∧ p.complaints = [] ∧
      Evaluation.eval depth p.program scope s = .ok o t := by
  cases hp : parse depth text with
  | none =>
    rw [run_of_none hp] at h
    cases h
  | some p =>
    by_cases hc : p.complaints = []
    · rw [run_of_clean hp hc, Evaluation.outcome] at h
      refine ⟨p, rfl, hc, ?_⟩
      split at h
      · next hr =>
        cases h
        exact hr
      · cases h
    · rw [run_of_complaints hp hc] at h
      cases h

end

end Monkey
