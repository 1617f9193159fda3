import Monkey.Evaluation.Eval
import Monkey.Proofs.Value.Integer

/-!
# Wrapping once is enough

Sums, differences, products and negations wrap wherever they stand.  That cannot be told from
wrapping once, at the end, what an expression comes to if integers have no bounds: wrapping keeps
an integer in its residue class modulo `2 ^ 64`, and these operations respect residue classes.
This holds for literals of any size, which a tree made by hand may have, though a literal alone is
not wrapped.

## Main definitions

* `RingExpression`, `RingExpression.tree` — the expressions, and their syntax trees.
* `RingExpression.exact` — what an expression comes to if integers have no bounds.

## Main results

* `RingExpression.result_modEq` — wrapping on the way does not leave the residue class.
* `RingExpression.eval_tree` — the evaluation of an expression.
* `wrapping_is_unobservable` — an expression evaluates to its exact value, wrapped once.
-/

namespace Monkey

/-- The operations of a ring. -/
inductive RingOperation
  | sum
  | difference
  | product
  deriving DecidableEq, Repr

namespace RingOperation

/-- The operator of an operation. -/
def operator : RingOperation → String
  | sum => "+"
  | difference => "-"
  | product => "*"

/-- An operation on integers without bounds. -/
def apply : RingOperation → Int → Int → Int
  | sum, m, n => m + n
  | difference, m, n => m - n
  | product, m, n => m * n

/-- An operation respects residue classes. -/
theorem apply_modEq (op : RingOperation) {k m m' n n' : Int} (hm : m ≡ m' [ZMOD k])
    (hn : n ≡ n' [ZMOD k]) : op.apply m n ≡ op.apply m' n' [ZMOD k] := by
  cases op with
  | sum => exact hm.add hn
  | difference => exact hm.sub hn
  | product => exact hm.mul hn

theorem applyInfix_operator (op : RingOperation) (m n : Int) :
    Value.applyInfix op.operator (.integer m) (.integer n) =
      .ok (.integer (wrap64 (op.apply m n))) := by
  cases op <;> rfl

end RingOperation

/-- Expressions of integer literals, minus signs and the operations of a ring, with the tokens of
their trees. -/
inductive RingExpression
  | literal (token : Token) (n : Int)
  | negation (token : Token) (operand : RingExpression)
  | operation (token : Token) (op : RingOperation) (left right : RingExpression)

namespace RingExpression

/-- The syntax tree of an expression. -/
def tree : RingExpression → Node
  | literal token n => .integer token n
  | negation token e => .prefixed token "-" e.tree
  | operation token op l r => .infixed token l.tree op.operator r.tree

/-- What an expression comes to if integers have no bounds. -/
def exact : RingExpression → Int
  | literal _ n => n
  | negation _ e => -e.exact
  | operation _ op l r => op.apply l.exact r.exact

/-- How deeply the operators of an expression nest; a literal has none. -/
def height : RingExpression → Nat
  | literal .. => 0
  | negation _ e => e.height + 1
  | operation _ _ l r => max l.height r.height + 1

/-- What an expression comes to with wrapping at the end, where there is an operator. -/
def result : RingExpression → Int
  | literal _ n => n
  | e => wrap64 e.exact

/-- The result is in the residue class of the exact value. -/
theorem result_modEq (e : RingExpression) : e.result ≡ e.exact [ZMOD 2 ^ 64] := by
  cases e with
  | literal token n => exact .rfl
  | _ => exact wrap64_modEq _

theorem result_of_height {e : RingExpression} (h : 0 < e.height) : e.result = wrap64 e.exact := by
  cases e with
  | literal token n => exact absurd h (Nat.lt_irrefl 0)
  | _ => rfl

/-- The minus in front of a result: it wraps as it does in front of the exact value. -/
theorem applyPrefix_result (token : Token) (e : RingExpression) :
    Value.applyPrefix "-" (.integer e.result) = .ok (.integer (negation token e).result) := by
  have hwrap : wrap64 (-e.result) = wrap64 (-e.exact) :=
    wrap64_eq_wrap64_iff.mpr e.result_modEq.neg
  calc Value.applyPrefix "-" (.integer e.result)
      = .ok (.integer (wrap64 (-e.result))) := rfl
    _ = .ok (.integer (negation token e).result) := by rw [hwrap]; rfl

/-- An operation on two results: it wraps as it does on the exact values. -/
theorem applyInfix_result (token : Token) (op : RingOperation) (l r : RingExpression) :
    Value.applyInfix op.operator (.integer l.result) (.integer r.result) =
      .ok (.integer (operation token op l r).result) := by
  have hwrap : wrap64 (op.apply l.result r.result) = wrap64 (op.apply l.exact r.exact) :=
    wrap64_eq_wrap64_iff.mpr (op.apply_modEq l.result_modEq r.result_modEq)
  rw [op.applyInfix_operator, hwrap]
  rfl

/-! ### Evaluation -/

open Evaluation

/-- A part that comes to an integer, unless it goes too deep. -/
theorem operand_integer {eval : Evaluator} {n : Node} {scope : ScopeId} {c : Prop} [Decidable c]
    {m : Int} {why : Stop}
    (h : eval n scope = if c then pure (some (.integer m)) else throw why)
    (k : Value → Evaluation (Option Value)) :
    operand eval n scope k = if c then k (.integer m) else throw why := by
  rw [operand, value, h]
  split <;> rfl

/-- **The evaluation of an expression.**  It comes to its result at every depth greater than its
height, and goes too deep at all others. -/
theorem eval_tree (e : RingExpression) (depth : Nat) (scope : ScopeId) :
    eval depth e.tree scope =
      if e.height < depth then pure (some (.integer e.result)) else throw .tooDeep := by
  induction e generalizing depth with
  | literal token n =>
    cases depth with
    | zero => rfl
    | succ depth => exact (if_pos (Nat.succ_pos depth)).symm
  | negation token e ih =>
    cases depth with
    | zero => rfl
    | succ depth =>
      change operand (eval depth) e.tree scope
        (fun v => some <$> settle (Value.applyPrefix "-" v)) = _
      rw [operand_integer (ih depth), applyPrefix_result token]
      simp only [height, Nat.succ_lt_succ_iff]
      rfl
  | operation token op l r ihl ihr =>
    cases depth with
    | zero => rfl
    | succ depth =>
      change operand (eval depth) l.tree scope (fun v =>
        operand (eval depth) r.tree scope fun w =>
          some <$> settle (Value.applyInfix op.operator v w)) = _
      rw [operand_integer (ihl depth), operand_integer (ihr depth), applyInfix_result token]
      simp only [height, Nat.succ_lt_succ_iff, Nat.max_lt, ite_and]
      rfl

end RingExpression

/-- **Wrapping on the way is unobservable.**  An expression with an operator evaluates, in any
scope, to its exact value wrapped once; it changes nothing, and goes too deep at no depth greater
than its height.  And an integer wraps to the only machine word that is congruent to it modulo
`2 ^ 64`. -/
theorem wrapping_is_unobservable :
    (∀ e : RingExpression, 0 < e.height → ∀ (depth : Nat) (scope : ScopeId) (s : Store),
      Evaluation.eval depth e.tree scope s =
        if e.height < depth then .ok (some (.integer (wrap64 e.exact))) s
        else .error .tooDeep s) ∧
    ∀ m n : Int, m = wrap64 n ↔ IsWord m ∧ m ≡ n [ZMOD 2 ^ 64] := by
  refine ⟨fun e h depth scope s => ?_, fun m n => eq_wrap64_iff⟩
  rw [RingExpression.eval_tree, RingExpression.result_of_height h]
  split <;> rfl

/-- A literal that is no machine word, under a minus and in a product. -/
theorem wrapping_is_unobservable_product :
    ∃ e : RingExpression, 0 < e.height ∧ e.exact = -(3 * (2 ^ 64 + 5)) ∧
      Evaluation.eval 3 e.tree 0 Store.empty = .ok (some (.integer (-15))) Store.empty := by
  let e : RingExpression := .negation default
    (.operation default .product (.literal default 3) (.literal default (2 ^ 64 + 5)))
  have hheight : 0 < e.height := by decide
  have hwrap : wrap64 e.exact = -15 := by decide
  refine ⟨e, hheight, by decide, ?_⟩
  rw [wrapping_is_unobservable.1 e hheight, if_pos (by decide), hwrap]

end Monkey
