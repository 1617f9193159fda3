import Monkey.Proofs.Run.Expression
import Monkey.Proofs.Value.Integer

/-!
# Arithmetic from text to value

Numbers under the minus in front and the four operations.  What such an expression comes to is
said by machine words: it is the word that two's complement arithmetic gives, with division
truncated toward zero, unless some divisor comes to zero.  Its text, with the parentheses that it
needs and no others, is run to the integer of that word, or to the error of a division by zero.

## Main definitions

* `Arithmetic`, `Arithmetic.formula`, `Arithmetic.text` — the expressions and how they are printed.
* `Arithmetic.word?` — the word that an expression comes to, if no divisor comes to zero.
* `Arithmetic.divisors` — the right operands of its divisions.

## Main results

* `Arithmetic.word?_eq_none_iff` — there is no word exactly if some divisor comes to zero.
* `run_arithmetic` — the outcome of the text of an expression.
-/

namespace Monkey

/-- The operations of arithmetic. -/
inductive Arithmetic.Operation
  | sum
  | difference
  | product
  | quotient
  deriving DecidableEq, Repr

/-- Arithmetic expressions. -/
inductive Arithmetic
  | number (d : Numeral)
  | negation (operand : Arithmetic)
  | binary (op : Arithmetic.Operation) (left right : Arithmetic)

namespace Arithmetic

namespace Operation

/-- The operator of an operation. -/
def operator : Operation → Formula.Operator
  | sum => .plus
  | difference => .minus
  | product => .asterisk
  | quotient => .slash

/-- The spelling of an operation. -/
def spelling (op : Operation) : String := op.operator.lexeme.unplaced.literal

/-- An operation on two words.  There is no quotient by zero. -/
def apply : Operation → BitVec 64 → BitVec 64 → Option (BitVec 64)
  | sum, a, b => some (a + b)
  | difference, a, b => some (a - b)
  | product, a, b => some (a * b)
  | quotient, a, b => if b = 0 then none else some (a.sdiv b)

/-- The quotient of the least word by minus one is the least word again. -/
example : quotient.apply (BitVec.intMin 64) (-1) = some (BitVec.intMin 64) := by decide

end Operation

/-- The formula of an expression. -/
def formula : Arithmetic → Formula
  | number d => .number d
  | negation e => .signed .minus e.formula
  | binary op l r => .operation op.operator l.formula r.formula

/-- The text of an expression, with the parentheses that it needs. -/
def text (e : Arithmetic) : String := e.formula.text

/-- How deeply an expression nests. -/
def height : Arithmetic → Nat
  | number _ => 0
  | negation e => e.height + 1
  | binary _ l r => max l.height r.height + 1

/-- The word that an expression comes to, unless a division by zero is met. -/
def word? : Arithmetic → Option (BitVec 64)
  | number d => some (BitVec.ofNat 64 d.value)
  | negation e => e.word?.map (- ·)
  | binary op l r => do
    let a ← l.word?
    let b ← r.word?
    op.apply a b

/-- The right operands of the divisions in an expression. -/
def divisors : Arithmetic → List Arithmetic
  | number _ => []
  | negation e => e.divisors
  | binary op l r => (if op = .quotient then [r] else []) ++ (l.divisors ++ r.divisors)

theorem apply_eq_none_iff {op : Operation} {a b : BitVec 64} :
    op.apply a b = none ↔ op = .quotient ∧ b = 0 := by
  cases op with
  | quotient => simp [Operation.apply]
  | _ => simp [Operation.apply]

/-- There is no word exactly if some divisor comes to zero. -/
theorem word?_eq_none_iff {e : Arithmetic} :
    e.word? = none ↔ ∃ r ∈ e.divisors, r.word? = some 0 := by
  induction e with
  | number d => simp [word?, divisors]
  | negation e ih => rw [word?, Option.map_eq_none_iff, ih, divisors]
  | binary op l r ihl ihr =>
    simp only [divisors, List.mem_append, or_and_right, exists_or, ← ihl, ← ihr]
    cases hl : l.word? with
    | none => simp [word?, hl]
    | some a =>
      cases hr : r.word? with
      | none => simp [word?, hl, hr]
      | some b =>
        -- both operands come to a word, so only this operation may fail
        have hword : (binary op l r).word? = op.apply a b := by simp [word?, hl, hr]
        rw [hword, apply_eq_none_iff]
        simp only [reduceCtorEq, or_false]
        constructor
        · rintro ⟨rfl, rfl⟩
          exact ⟨r, by simp, hr⟩
        · rintro ⟨r', hmem, hr'⟩
          split at hmem
          · next hop =>
            obtain rfl := List.mem_singleton.mp hmem
            exact ⟨hop, Option.some.inj (hr.symm.trans hr')⟩
          · exact absurd hmem List.not_mem_nil

end Arithmetic

/-! ### Words and integers -/

namespace Value

open Arithmetic (Operation)

/-- The operators do to the integers of words what the operations do to the words. -/
theorem applyInfix_words (op : Operation) (a b : BitVec 64) :
    applyInfix op.spelling (.integer a.toInt) (.integer b.toInt) =
      match op.apply a b with
      | some w => .ok (.integer w.toInt)
      | none => .error .divisionByZero := by
  rw [applyInfix_toInt]
  cases op with
  | quotient =>
    rw [Operation.apply]
    change (if b = 0 then _ else _) = _
    split <;> rfl
  | _ => rfl

end Value

namespace Arithmetic

open Evaluation

/-! ### Evaluation -/

/-- The value that stands for a word, or for a division by zero. -/
def Stands (w? : Option (BitVec 64)) (v : Value) : Prop :=
  match w? with
  | some w => v = .integer w.toInt
  | none => ∃ id, v = .error id .divisionByZero

theorem toInt_value (d : Numeral) : (BitVec.ofNat 64 d.value).toInt = d.value := by
  have hle : d.value ≤ 0x7fffffffffffffff := d.value_le
  rw [BitVec.toInt_ofNat']
  exact Int.bmod_eq_of_le (by omega) (by omega)

theorem Stands.signal {w? : Option (BitVec 64)} {v : Value} (h : Stands w? v)
    (hv : v.isSignal) : w? = none ∧ ∃ id, v = .error id .divisionByZero := by
  cases w? with
  | none => exact ⟨rfl, h⟩
  | some w =>
    have hw : v = .integer w.toInt := h
    rw [hw] at hv
    cases hv

theorem Stands.word {w? : Option (BitVec 64)} {v : Value} (h : Stands w? v)
    (hv : v.isSignal = false) : ∃ w, w? = some w ∧ v = .integer w.toInt := by
  cases w? with
  | none =>
    obtain ⟨id, rfl⟩ := h
    cases hv
  | some w => exact ⟨w, rfl, h⟩

/-- An expression evaluates to what stands for its word. -/
theorem evaluates_tree (e : Arithmetic) :
    e.formula.tree.Evaluates e.height (Stands e.word?) := by
  induction e with
  | number d =>
    refine Node.evaluates_of_succ fun depth scope => .pure ⟨_, rfl, ?_⟩
    rw [word?, Stands, toInt_value]
  | negation e ih =>
    refine Node.evaluates_of_succ fun depth scope => ?_
    refine ensures_operand (ih.value (Nat.lt_succ_self _) scope) ?_ ?_
    · intro v hv hs
      obtain ⟨hnone, hv⟩ := hv.signal hs
      rw [word?, hnone]
      exact ⟨v, rfl, hv⟩
    · intro v hv hs
      obtain ⟨w, hw, rfl⟩ := hv.word hs
      have happly : Value.applyPrefix (Formula.Sign.lexeme .minus).unplaced.literal
          (.integer w.toInt) = .ok (.integer (-w).toInt) := Value.applyPrefix_minus w
      rw [word?, hw, happly]
      exact .pure ⟨_, rfl, rfl⟩
  | binary op l r ihl ihr =>
    refine Node.evaluates_of_succ fun depth scope => ?_
    have hl : l.height < (binary op l r).height := Nat.lt_succ_of_le (Nat.le_max_left _ _)
    have hr : r.height < (binary op l r).height := Nat.lt_succ_of_le (Nat.le_max_right _ _)
    refine ensures_operand (ihl.value hl scope) ?_ fun v hv hs => ?_
    · intro v hv hs
      obtain ⟨hnone, hv⟩ := hv.signal hs
      rw [word?, hnone]
      exact ⟨v, rfl, hv⟩
    obtain ⟨a, ha, rfl⟩ := hv.word hs
    refine ensures_operand (ihr.value hr scope) ?_ fun v hv hs => ?_
    · intro v hv hs
      obtain ⟨hnone, hv⟩ := hv.signal hs
      rw [word?, ha, hnone]
      exact ⟨v, rfl, hv⟩
    obtain ⟨b, hb, rfl⟩ := hv.word hs
    -- both operands came to words, and the operator is applied to their integers
    have hword : (binary op l r).word? = op.apply a b := by simp [word?, ha, hb]
    have happly := Value.applyInfix_words op a b
    rw [Operation.spelling] at happly
    rw [hword, happly]
    cases op.apply a b with
    | none => exact .map _ (ensures_raise (fun _ _ => trivial) fun id => ⟨_, rfl, id, rfl⟩)
    | some w => exact .map _ (.pure ⟨_, rfl, rfl⟩)

theorem Stands.unwrapped {w? : Option (BitVec 64)} {v : Value} (h : Stands w? v) :
    v.unwrapped = v := by
  cases w? with
  | none =>
    obtain ⟨id, rfl⟩ := h
    rfl
  | some w =>
    rw [h]
    rfl

theorem Stands.of_mapTokens {f : Token → Token} {w? : Option (BitVec 64)} {v : Value}
    (h : Stands w? (v.mapTokens f)) : Stands w? v := by
  cases w? with
  | none =>
    obtain ⟨id, hv⟩ := h
    cases v <;> cases hv
    exact ⟨_, rfl⟩
  | some w =>
    have hv : v.mapTokens f = .integer w.toInt := h
    cases v <;> cases hv
    rfl

end Arithmetic

/-- **Arithmetic from text to value.**  The text of an expression is run, in any scope, to the
integer of the word that the expression comes to, or to the error of a division by zero, which is
so exactly if some divisor comes to zero.  It goes too deep at no depth greater than the number of
its tokens and its height. -/
theorem run_arithmetic (e : Arithmetic) (scope : ScopeId) (s : Store) :
    (∀ depth, (tokens e.text).length < depth → e.height + 2 < depth →
      (run depth e.text scope s).1 ≠ .stopped .tooDeep) ∧
    (∀ depth, (run depth e.text scope s).1 = .stopped .tooDeep ∨
      ∃ v, (run depth e.text scope s).1 = .finished (some v) ∧
        match e.word? with
        | some w => v = .integer w.toInt
        | none => ∃ id fault, v = .error id fault ∧
          fault.message = "division by zero: INTEGER / INTEGER") ∧
    (e.word? = none ↔ ∃ r ∈ e.divisors, r.word? = some 0) := by
  obtain ⟨hdeep, hrun⟩ := run_of_readsAs e.formula.readsAs_text e.evaluates_tree
    (fun _ => Arithmetic.Stands.unwrapped) scope s
  refine ⟨hdeep, fun depth => ?_, Arithmetic.word?_eq_none_iff⟩
  refine (hrun depth).imp_right ?_
  rintro ⟨v, hv, hstands⟩
  refine ⟨v, hv, ?_⟩
  have hstands := hstands.of_mapTokens
  cases hw : e.word? with
  | some w =>
    rw [hw] at hstands
    exact hstands
  | none =>
    rw [hw] at hstands
    obtain ⟨id, rfl⟩ := hstands
    exact ⟨id, _, rfl, rfl⟩

/-- A quotient, truncated toward zero. -/
theorem run_arithmetic_quotient :
    ∃ e : Arithmetic, e.text = "-7 / (5 - 3)" ∧
      (run 20 "-7 / (5 - 3)" 0 (Store.empty.addScope none)).1 =
        .finished (some (.integer (-3))) := by
  let e : Arithmetic := .binary .quotient
    (.negation (.number ⟨'7', [], by decide, List.forall_mem_nil _, by decide, by decide⟩))
    (.binary .difference
      (.number ⟨'5', [], by decide, List.forall_mem_nil _, by decide, by decide⟩)
      (.number ⟨'3', [], by decide, List.forall_mem_nil _, by decide, by decide⟩))
  have htext : e.text = "-7 / (5 - 3)" := by decide +kernel
  have hword : e.word? = some (-3) := by decide +kernel
  obtain ⟨hdeep, hrun, -⟩ := run_arithmetic e 0 (Store.empty.addScope none)
  rw [htext, hword] at hrun
  rw [htext] at hdeep
  rcases hrun 20 with hstop | ⟨v, hv, rfl⟩
  · exact absurd hstop (hdeep 20 (by decide +kernel) (by decide +kernel))
  · exact ⟨e, htext, hv⟩

end Monkey
