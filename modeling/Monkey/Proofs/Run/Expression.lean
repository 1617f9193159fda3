import Monkey.Proofs.Evaluation.Ensures
import Monkey.Proofs.Evaluation.Relocate
import Monkey.Proofs.Syntax.Printed
import Monkey.Run

/-!
# Texts of one expression

A text that is read as one expression is run as that expression, wherever its tokens stand: what
the expression evaluates to is the outcome, unless the text or the evaluation goes too deep.

## Main definitions

* `Node.Evaluates` — what a tree gives at every depth that is greater than a height.

## Main results

* `run_of_readsAs` — the outcome of a text that is read as one expression.
-/

namespace Monkey

open Evaluation

/-- In every scope the tree gives a value of `Q`.  It goes too deep at no depth greater than
`height`, and nothing else stops it. -/
def Node.Evaluates (n : Node) (height : Nat) (Q : Value → Prop) : Prop :=
  ∀ depth scope, Ensures (fun _ => True) (fun why => why = .tooDeep ∧ depth ≤ height)
    (fun o => ∃ v, o = some v ∧ Q v) (eval depth n scope)

variable {n : Node} {height : Nat} {Q : Value → Prop}

namespace Node

/-- At depth 0 every tree goes too deep, so only the other depths matter. -/
theorem evaluates_of_succ (h : ∀ depth scope, Ensures (fun _ => True)
    (fun why => why = .tooDeep ∧ depth + 1 ≤ height) (fun o => ∃ v, o = some v ∧ Q v)
    (evalNode (eval depth) depth n scope)) : n.Evaluates height Q
  | 0, _ => .throw ⟨rfl, Nat.zero_le height⟩
  | depth + 1, scope => h depth scope

/-- A part may have a smaller height than the whole. -/
theorem Evaluates.part (h : n.Evaluates height Q) {depth height' : Nat} (hle : height < height')
    (scope : ScopeId) : Ensures (fun _ => True) (fun why => why = .tooDeep ∧ depth + 1 ≤ height')
      (fun o => ∃ v, o = some v ∧ Q v) (eval depth n scope) :=
  (h depth scope).mono (fun _ ⟨hw, hd⟩ => ⟨hw, by omega⟩) fun _ => id

/-- The value of a part. -/
theorem Evaluates.value (h : n.Evaluates height Q) {depth height' : Nat} (hle : height < height')
    (scope : ScopeId) : Ensures (fun _ => True) (fun why => why = .tooDeep ∧ depth + 1 ≤ height')
      Q (value (eval depth) n scope) := by
  refine ensures_value ((h.part hle scope).mono (fun _ => id) ?_)
  rintro _ ⟨v, rfl, hv⟩
  exact hv

/-- A program of one expression gives what the expression gives, without the wrapper of a
`return`. -/
theorem Evaluates.program (h : n.Evaluates height Q) (hQ : ∀ v, Q v → v.unwrapped = v)
    (t : Token) : (Node.program [.expressionStatement t n]).Evaluates (height + 2) Q := by
  have statement : (Node.expressionStatement t n).Evaluates (height + 1) Q :=
    evaluates_of_succ fun depth scope => h.part (Nat.lt_succ_self height) scope
  refine evaluates_of_succ fun depth scope => ?_
  refine (statement.part (Nat.lt_succ_self (height + 1)) scope).bind ?_
  rintro _ ⟨v, rfl, hv⟩
  cases v with
  | returned id w =>
    have hw : w = .returned id w := hQ _ hv
    exact .pure ⟨w, rfl, Eq.mpr (congrArg Q hw) hv⟩
  | _ => exact .pure ⟨_, rfl, hv⟩

end Node

/-- A text that is read as one expression is run as that. -/
theorem run_of_readsAs {text : String} (h : ReadsAs text n) (hn : n.Evaluates height Q)
    (hQ : ∀ v, Q v → v.unwrapped = v) (scope : ScopeId) (s : Store) :
    (∀ depth, (tokens text).length < depth → height + 2 < depth →
      (run depth text scope s).1 ≠ .stopped .tooDeep) ∧
    ∀ depth, (run depth text scope s).1 = .stopped .tooDeep ∨
      ∃ v, (run depth text scope s).1 = .finished (some v) ∧
        Q (v.mapTokens Relocation.forget.move) := by
  -- a text that is read is evaluated as the expression is, up to the places of tokens
  have key : ∀ depth p, parse depth text = some p →
      (depth ≤ height + 2 ∧ (run depth text scope s).1 = .stopped .tooDeep) ∨
        ∃ v, (run depth text scope s).1 = .finished (some v) ∧
          Q (v.mapTokens Relocation.forget.move) := by
    intro depth p hp
    obtain ⟨hclean, t, m, hprogram, rfl⟩ := h.2 depth p hp
    have hrun := run_of_clean hp hclean scope s
    have hmoves := moves_eval .forget depth p.program scope s
    have hmoved : p.program.mapTokens Relocation.forget.move = .program [.expressionStatement
        (Relocation.forget.move t) (m.mapTokens Relocation.forget.move)] := by
      rw [hprogram]
      rfl
    have hensures := (hn.program hQ (Relocation.forget.move t)) depth scope
      (s.mapTokens Relocation.forget.move) trivial
    rw [← hmoved, hmoves] at hensures
    rw [hrun, outcome]
    cases hr : eval depth p.program scope s with
    | ok o t =>
      rw [hr] at hensures
      obtain ⟨-, v, ho, hv⟩ := hensures
      obtain ⟨w, rfl, rfl⟩ := Option.map_eq_some_iff.mp ho
      exact .inr ⟨w, rfl, hv⟩
    | error why t =>
      rw [hr] at hensures
      obtain ⟨rfl, hd⟩ := hensures
      exact .inl ⟨hd, rfl⟩
  refine ⟨fun depth hlength hheight => ?_, fun depth => ?_⟩
  · obtain ⟨p, hp⟩ := Option.isSome_iff_exists.mp (h.1 depth hlength)
    rcases key depth p hp with ⟨hd, -⟩ | ⟨v, hv, -⟩
    · omega
    · rw [hv]
      exact Outcome.noConfusion
  · cases hp : parse depth text with
    | none => exact .inl (congrArg Prod.fst (run_of_none hp scope s))
    | some p => exact (key depth p hp).imp_left And.right

end Monkey
