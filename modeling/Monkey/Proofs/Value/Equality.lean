import Monkey.Value.Operator

/-!
# Equality

What `==` says of two values is told by a mark of each of them: integers, booleans and null are
marked by what they are, objects and builtins by which one they are.  Two values are equal if they
have the same mark, so equality is an equivalence, and `!=` is its negation.  Strings have no mark:
between two of them both operators are errors, and no other value is equal to a string.

## Main definitions

* `Value.Mark`, `Value.mark?` — the marks, and that of a value.
* `Value.Equals` — `==` holds between two values.

## Main results

* `Value.applyInfix_marks` — `==` and `!=` compare marks.
* `Value.equality_is_equivalence` — what this means for all values.
-/

namespace Monkey.Value

/-- What `==` looks at in a value. -/
inductive Mark
  | integer (value : Int)
  | boolean (value : Bool)
  | null
  /-- An object, by its identity. -/
  | object (kind : Kind) (id : Identity)
  | builtin (builtin : Builtin)
  deriving DecidableEq, Repr

/-- The kind of the values that have a mark. -/
def Mark.kind : Mark → Kind
  | integer _ => .integer
  | boolean _ => .boolean
  | null => .null
  | object kind _ => kind
  | builtin _ => .builtin

/-- The mark of a value; a string has none. -/
def mark? : Value → Option Mark
  | integer n => some (.integer n)
  | boolean b => some (.boolean b)
  | null => some .null
  | string _ => none
  | array id _ => some (.object .array id)
  | hash id _ => some (.object .hash id)
  | function id _ _ _ => some (.object .function id)
  | builtin b => some (.builtin b)
  | returned id _ => some (.object .returned id)
  | error id _ => some (.object .error id)

variable {a b : Value}

theorem map_kind_mark? (h : a.kind ≠ .string) : a.mark?.map Mark.kind = some a.kind := by
  cases a with
  | string s => exact absurd rfl h
  | _ => rfl

theorem mark?_eq_none_iff : a.mark? = none ↔ a.kind = .string := by
  cases a <;> simp [mark?, kind]

/-- Values of the same mark are of the same kind. -/
theorem kind_eq_of_mark? (h : a.mark? = b.mark?) : a.kind = b.kind := by
  by_cases ha : a.kind = .string
  · rw [ha, eq_comm, ← mark?_eq_none_iff, ← h, mark?_eq_none_iff, ha]
  · have hb : b.kind ≠ .string := by rwa [ne_eq, ← mark?_eq_none_iff, ← h, mark?_eq_none_iff]
    have hkind := congrArg (Option.map Mark.kind) h
    rw [map_kind_mark? ha, map_kind_mark? hb] at hkind
    exact Option.some.inj hkind

/-! ### The operators -/

/-- Being the same is having the same mark, unless two integers or two strings are compared. -/
theorem sameObject_eq (hi : ¬(a.kind = .integer ∧ b.kind = .integer))
    (hs : ¬(a.kind = .string ∧ b.kind = .string)) :
    a.sameObject b = decide (a.mark? = b.mark?) := by
  cases a <;> cases b <;> simp_all [sameObject, mark?, kind]

/-- The operators other than on two integers and on two strings. -/
theorem applyInfix_eq_otherInfix (operator : String)
    (hi : ¬(a.kind = .integer ∧ b.kind = .integer)) (hs : ¬(a.kind = .string ∧ b.kind = .string)) :
    applyInfix operator a b = otherInfix operator a b := by
  unfold applyInfix
  split
  · exact absurd ⟨rfl, rfl⟩ hi
  · exact absurd ⟨rfl, rfl⟩ hs
  · rfl

theorem exists_integer (h : a.kind = .integer) : ∃ n, a = .integer n := by
  cases a <;> cases h
  exact ⟨_, rfl⟩

theorem exists_string (h : a.kind = .string) : ∃ s, a = .string s := by
  cases a <;> cases h
  exact ⟨_, rfl⟩

/-- Unless both values are strings, `==` compares their marks, and `!=` is its negation. -/
theorem applyInfix_marks (h : ¬(a.kind = .string ∧ b.kind = .string)) :
    applyInfix "==" a b = .ok (.boolean (decide (a.mark? = b.mark?))) ∧
      applyInfix "!=" a b = .ok (.boolean (!decide (a.mark? = b.mark?))) := by
  by_cases hi : a.kind = .integer ∧ b.kind = .integer
  · obtain ⟨m, rfl⟩ := exists_integer hi.1
    obtain ⟨n, rfl⟩ := exists_integer hi.2
    simp [applyInfix, integerInfix, mark?]
  · rw [applyInfix_eq_otherInfix _ hi h, applyInfix_eq_otherInfix _ hi h, ← sameObject_eq hi h]
    exact ⟨rfl, rfl⟩

/-! ### Equal values -/

/-- `==` holds between two values. -/
def Equals (a b : Value) : Prop := applyInfix "==" a b = .ok (.boolean true)

theorem not_equals_of_string (ha : a.kind = .string) (hb : b.kind = .string) : ¬a.Equals b := by
  obtain ⟨s, rfl⟩ := exists_string ha
  obtain ⟨t, rfl⟩ := exists_string hb
  exact nofun

/-- Values are equal if they have the same mark. -/
theorem equals_iff : a.Equals b ↔ a.kind ≠ .string ∧ a.mark? = b.mark? := by
  by_cases h : a.kind = .string ∧ b.kind = .string
  · exact iff_of_false (not_equals_of_string h.1 h.2) fun hne => hne.1 h.1
  · rw [Equals, (applyInfix_marks h).1]
    simp only [Except.ok.injEq, boolean.injEq, decide_eq_true_eq]
    refine ⟨fun heq => ⟨fun ha => h ⟨ha, ?_⟩, heq⟩, And.right⟩
    rw [← kind_eq_of_mark? heq, ha]

theorem Equals.kind_eq (h : a.Equals b) : a.kind = b.kind := kind_eq_of_mark? (equals_iff.mp h).2

theorem equivalence_equals :
    Equivalence fun a b : { v : Value // v.kind ≠ .string } => a.1.Equals b.1 where
  refl a := equals_iff.mpr ⟨a.2, rfl⟩
  symm {_ b} h := equals_iff.mpr ⟨b.2, (equals_iff.mp h).2.symm⟩
  trans {a _ _} h h' := equals_iff.mpr ⟨a.2, (equals_iff.mp h).2.trans (equals_iff.mp h').2⟩

/-- **Equality is an equivalence, and `!=` is its negation.**  Between two strings both operators
are errors.  Between any other two values both of them are booleans, one the negation of the other,
and `==` holds if both values have the same mark.  On the values that are no strings this is an
equivalence, and only values of the same kind are equal. -/
theorem equality_is_equivalence :
    (∀ a b : Value, ¬(a.kind = .string ∧ b.kind = .string) → ∃ r : Bool,
      applyInfix "==" a b = .ok (.boolean r) ∧ applyInfix "!=" a b = .ok (.boolean !r) ∧
        (r ↔ a.mark? = b.mark?)) ∧
    (∀ a b : Value, a.kind = .string ∧ b.kind = .string → ∀ operator ∈ ["==", "!="],
      ∃ fault, applyInfix operator a b = .error fault ∧
        fault.message = "unknown operator: STRING " ++ operator ++ " STRING") ∧
    (Equivalence fun a b : { v : Value // v.kind ≠ .string } => a.1.Equals b.1) ∧
    ∀ a b : Value, a.Equals b → a.kind = b.kind := by
  refine ⟨fun a b h => ?_, ?_, equivalence_equals, fun _ _ => Equals.kind_eq⟩
  · obtain ⟨hequals, hdiffers⟩ := applyInfix_marks h
    exact ⟨_, hequals, hdiffers, decide_eq_true_iff⟩
  · rintro a b ⟨ha, hb⟩ operator hop
    obtain ⟨s, rfl⟩ := exists_string ha
    obtain ⟨t, rfl⟩ := exists_string hb
    simp only [List.mem_cons, List.not_mem_nil, or_false] at hop
    rcases hop with rfl | rfl
    · exact ⟨_, rfl, by decide⟩
    · exact ⟨_, rfl, by decide⟩

/-- Two arrays with the same elements, and two strings. -/
theorem equality_is_equivalence_arrays :
    let a := array 3 [.integer 1]
    let b := array 4 [.integer 1]
    ¬(a.kind = .string ∧ b.kind = .string) ∧ applyInfix "!=" a b = .ok (.boolean true) ∧
    a.Equals a ∧ (string "x").kind = .string ∧ ∃ fault,
      applyInfix "==" (.string "x") (.string "x") = .error fault ∧
        fault.message = "unknown operator: STRING == STRING" := by
  intro a b
  have hkinds : ¬(a.kind = .string ∧ b.kind = .string) := by decide
  obtain ⟨hboolean, hstrings, hequivalence, -⟩ := equality_is_equivalence
  obtain ⟨r, -, hdiffers, hr⟩ := hboolean a b hkinds
  obtain rfl : r = false := Bool.eq_false_iff.mpr (mt hr.mp (by decide))
  exact ⟨hkinds, hdiffers, hequivalence.refl ⟨a, by decide⟩, rfl,
    hstrings (.string "x") (.string "x") ⟨rfl, rfl⟩ "==" (by decide)⟩

end Monkey.Value
