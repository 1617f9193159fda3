import Mathlib.Data.Int.ModEq
import Monkey.Value.Operator

/-!
# Integers are machine words

The operators compute with integers that have no bounds, and wrap what comes of them.  On the
integers of a machine word this is what a machine does with words of 64 bits in two's complement:
its sums, differences, products and negations drop what does not fit, its quotients are truncated
toward zero, and its comparisons take the sign into account.

## Main definitions

* `IsWord` — the integers from `-2 ^ 63` to `2 ^ 63 - 1`.
* `Value.machineInfix` — what a machine does with two words.

## Main results

* `eq_wrap64_iff` — an integer wraps to the only machine word that is congruent to it.
* `Value.applyInfix_toInt` — the infix operators do to machine words what a machine does.
* `Value.integer_operators_are_machine_operators` — the same for integers, with what it means for
  quotients and for errors.
-/

namespace Monkey

/-! ### Machine words -/

/-- The integers of a machine word, from `-2 ^ 63` to `2 ^ 63 - 1`. -/
def IsWord (k : Int) : Prop := -0x8000000000000000 ≤ k ∧ k ≤ 0x7fffffffffffffff

instance (k : Int) : Decidable (IsWord k) := inferInstanceAs (Decidable (_ ∧ _))

theorem wrap64_eq_bmod (n : Int) : wrap64 n = n.bmod 0x10000000000000000 := rfl

theorem isWord_wrap64 (n : Int) : IsWord (wrap64 n) := by
  have hlow := Int.le_bmod (x := n) (m := 0x10000000000000000) (by decide)
  have hhigh := Int.bmod_lt (x := n) (m := 0x10000000000000000) (by decide)
  unfold IsWord wrap64
  omega

theorem wrap64_eq_self {n : Int} (h : IsWord n) : wrap64 n = n := by
  obtain ⟨hlow, hhigh⟩ := h
  exact Int.bmod_eq_of_le (by omega) (by omega)

theorem wrap64_modEq (n : Int) : wrap64 n ≡ n [ZMOD 2 ^ 64] := Int.bmod_emod

/-- Integers wrap to the same if they are congruent, and only then. -/
theorem wrap64_eq_wrap64_iff {m n : Int} : wrap64 m = wrap64 n ↔ m ≡ n [ZMOD 2 ^ 64] := by
  constructor
  · intro h
    calc m ≡ wrap64 m [ZMOD 2 ^ 64] := (wrap64_modEq m).symm
      _ = wrap64 n := h
      _ ≡ n [ZMOD 2 ^ 64] := wrap64_modEq n
  · intro h
    have hrem : m % (0x10000000000000000 : Nat) = n % (0x10000000000000000 : Nat) := h
    rw [wrap64_eq_bmod, wrap64_eq_bmod, ← Int.emod_bmod m, hrem, Int.emod_bmod]

/-- An integer wraps to the only machine word that is congruent to it. -/
theorem eq_wrap64_iff {m n : Int} : m = wrap64 n ↔ IsWord m ∧ m ≡ n [ZMOD 2 ^ 64] := by
  constructor
  · rintro rfl
    exact ⟨isWord_wrap64 n, wrap64_modEq n⟩
  · rintro ⟨hword, hmod⟩
    rw [← wrap64_eq_self hword, wrap64_eq_wrap64_iff.mpr hmod]

/-- The integer of the word that an integer is cut down to. -/
theorem toInt_ofInt_eq_wrap64 (n : Int) : (BitVec.ofInt 64 n).toInt = wrap64 n :=
  BitVec.toInt_ofInt n

/-- A machine word is the integer of its bits. -/
theorem toInt_ofInt_of_isWord {n : Int} (h : IsWord n) : (BitVec.ofInt 64 n).toInt = n := by
  rw [toInt_ofInt_eq_wrap64, wrap64_eq_self h]

namespace Value

/-! ### Operators -/

theorem applyPrefix_minus (x : BitVec 64) :
    applyPrefix "-" (.integer x.toInt) = .ok (.integer (-x).toInt) := by
  rw [BitVec.toInt_neg, ← wrap64_eq_bmod]
  rfl

/-- What a machine does with two words: the result, or an error. -/
def machineInfix (operator : String) (x y : BitVec 64) : Except Fault Value :=
  match operator with
  | "+" => .ok (.integer (x + y).toInt)
  | "-" => .ok (.integer (x - y).toInt)
  | "*" => .ok (.integer (x * y).toInt)
  | "/" => if y = 0#64 then .error .divisionByZero else .ok (.integer (x.sdiv y).toInt)
  | "<" => .ok (.boolean (x.slt y))
  | ">" => .ok (.boolean (y.slt x))
  | "==" => .ok (.boolean (x = y))
  | "!=" => .ok (.boolean (x ≠ y))
  | _ => .error (.unknownInfix .integer operator .integer)

/-- The infix operators do to the integers of words what a machine does to the words. -/
theorem applyInfix_toInt (operator : String) (x y : BitVec 64) :
    applyInfix operator (.integer x.toInt) (.integer y.toInt) = machineInfix operator x y := by
  -- read as statements about integers, the lines of the two tables are the same
  simp only [machineInfix, BitVec.toInt_add, BitVec.toInt_sub, BitVec.toInt_mul,
    BitVec.toInt_sdiv, BitVec.slt_eq_decide, ne_eq, ← BitVec.toInt_inj, BitVec.toInt_zero]
  rfl

/-- The least word divided by minus one is the least word again. -/
example : machineInfix "/" (BitVec.intMin 64) (-1) = .ok (.integer (-0x8000000000000000)) := by
  rfl

/-- The operators between two integers. -/
def integerOperators : List String := ["+", "-", "*", "/", "<", ">", "==", "!="]

/-- A machine fails to divide by zero only. -/
theorem machineInfix_eq_error_iff {operator : String} (h : operator ∈ integerOperators)
    (x y : BitVec 64) :
    (∃ fault, machineInfix operator x y = .error fault) ↔ operator = "/" ∧ y = 0#64 := by
  simp only [integerOperators, List.mem_cons, List.not_mem_nil, or_false] at h
  rcases h with rfl | rfl | rfl | rfl | rfl | rfl | rfl | rfl
  case inr.inr.inr.inl =>
    by_cases hy : y = 0#64 <;> simp [machineInfix, hy]
  all_goals simp [machineInfix]

/-- Division with truncation: what remains is less than the divisor, and has the sign of the
dividend unless it is zero. -/
theorem tdiv_tmod (a : Int) {b : Int} (hb : b ≠ 0) :
    a = a.tdiv b * b + a.tmod b ∧ (a.tmod b).natAbs < b.natAbs ∧
      (a.tmod b = 0 ∨ (a.tmod b).sign = a.sign) := by
  refine ⟨?_, ?_, ?_⟩
  · rw [Int.add_comm, Int.tmod_add_tdiv_mul]
  · rw [Int.natAbs_tmod]
    exact Nat.mod_lt _ (Int.natAbs_pos.mpr hb)
  · have hsign := Int.sign_tmod a b
    split at hsign
    · exact .inl (Int.sign_eq_zero_iff_zero.mp hsign)
    · exact .inr hsign

/-- **Integer operators are machine operators.**  Between machine words every infix operator does
what a machine does with their bits, and so does the minus in front.  The quotient of a division is
truncated toward zero, but for the one that does not fit into a word.  A division by zero is an
error, and there are no other errors. -/
theorem integer_operators_are_machine_operators {a b : Int} (ha : IsWord a) (hb : IsWord b) :
    ((BitVec.ofInt 64 a).toInt = a ∧ (BitVec.ofInt 64 b).toInt = b) ∧
    (∀ operator, applyInfix operator (.integer a) (.integer b) =
      machineInfix operator (.ofInt 64 a) (.ofInt 64 b)) ∧
    applyPrefix "-" (.integer a) = .ok (.integer (-BitVec.ofInt 64 a).toInt) ∧
    (∀ operator ∈ ["!", "-"], ∃ v, applyPrefix operator (.integer a) = .ok v) ∧
    (b ≠ 0 → ¬(a = -0x8000000000000000 ∧ b = -1) → ∃ q r : Int,
      applyInfix "/" (.integer a) (.integer b) = .ok (.integer q) ∧ a = q * b + r ∧
        r.natAbs < b.natAbs ∧ (r = 0 ∨ r.sign = a.sign)) ∧
    (b = 0 → ∃ fault, applyInfix "/" (.integer a) (.integer b) = .error fault ∧
      fault.message = "division by zero: INTEGER / INTEGER") ∧
    ∀ operator ∈ integerOperators,
      (∃ fault, applyInfix operator (.integer a) (.integer b) = .error fault) ↔
        operator = "/" ∧ b = 0 := by
  -- from here on the integers are those of words
  obtain ⟨x, rfl⟩ : ∃ x : BitVec 64, x.toInt = a := ⟨_, toInt_ofInt_of_isWord ha⟩
  obtain ⟨y, rfl⟩ : ∃ y : BitVec 64, y.toInt = b := ⟨_, toInt_ofInt_of_isWord hb⟩
  simp only [BitVec.ofInt_toInt, applyInfix_toInt, applyPrefix_minus, true_and, implies_true]
  have hzero : y.toInt = 0 ↔ y = 0#64 := by rw [← BitVec.toInt_inj, BitVec.toInt_zero]
  refine ⟨?_, fun hy hfits => ?_, fun hy => ?_, fun operator hop => ?_⟩
  · simp [applyPrefix]
  · have hquotient : (x.sdiv y).toInt = x.toInt.tdiv y.toInt := by
      refine BitVec.toInt_sdiv_of_ne_or_ne x y ?_
      rw [← not_and_or]
      rintro ⟨rfl, rfl⟩
      exact hfits ⟨rfl, rfl⟩
    refine ⟨_, x.toInt.tmod y.toInt, ?_, tdiv_tmod x.toInt hy⟩
    rw [machineInfix, if_neg (mt hzero.mpr hy), hquotient]
  · exact ⟨_, if_pos (hzero.mp hy), rfl⟩
  · rw [machineInfix_eq_error_iff hop, hzero]

/-- A quotient that is truncated, the one that does not fit into a word, and a division by zero. -/
theorem integer_operators_are_machine_operators_quotients :
    IsWord (-7) ∧ IsWord 2 ∧ IsWord (-0x8000000000000000) ∧ IsWord (-1) ∧ IsWord 0 ∧
    (∃ q r : Int, applyInfix "/" (.integer (-7)) (.integer 2) = .ok (.integer q) ∧
      -7 = q * 2 + r ∧ r.natAbs < 2 ∧ (r = 0 ∨ r.sign = -1)) ∧
    applyInfix "/" (.integer (-0x8000000000000000)) (.integer (-1)) =
      .ok (.integer (-0x8000000000000000)) ∧
    ∃ fault, applyInfix "/" (.integer (-7)) (.integer 0) = .error fault ∧
      fault.message = "division by zero: INTEGER / INTEGER" := by
  have hseven : IsWord (-7) := by decide
  have htwo : IsWord 2 := by decide
  have hleast : IsWord (-0x8000000000000000) := by decide
  have hone : IsWord (-1) := by decide
  have hnone : IsWord 0 := by decide
  refine ⟨hseven, htwo, hleast, hone, hnone, ?_, ?_, ?_⟩
  · obtain ⟨-, -, -, -, hquotient, -⟩ := integer_operators_are_machine_operators hseven htwo
    exact hquotient (by decide) (by decide)
  · obtain ⟨-, hmachine, -⟩ := integer_operators_are_machine_operators hleast hone
    rw [hmachine]
    rfl
  · obtain ⟨-, -, -, -, -, hzero, -⟩ := integer_operators_are_machine_operators hseven hnone
    exact hzero rfl

end Value

end Monkey
