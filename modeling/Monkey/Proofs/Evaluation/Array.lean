import Monkey.Evaluation.Builtin

/-!
# Arrays

An array is a list.  What can be asked of it, an element by its index, the length and the first and
the last element, is asked of the list, and the two builtins that make arrays take the first
element off the list or put one at its end.

An index may be any integer: where the list has no element, below zero as well as behind the end,
there is null.

## Main results

* `Value.subscript_natCast`, `Value.subscript_of_outside` — an element by its index.
* `Builtin.apply_rest`, `Builtin.apply_push` — the arrays that are made.
* `Builtin.arrays_are_lists` — the laws of lists.
-/

namespace Monkey

variable {id : Identity} {es : List Value} {e v : Value} {depth : Nat} {s : Store}

/-! ### Subscripts -/

namespace Value

theorem subscript_natCast (id : Identity) (es : List Value) (i : Nat) :
    subscript (.array id es) (.integer i) = .ok (es[i]?.getD .null) := by
  rw [subscript, if_neg (Int.not_lt.mpr (Int.natCast_nonneg i)), Int.toNat_natCast]

theorem subscript_of_lt {i : Nat} (h : i < es.length) :
    subscript (.array id es) (.integer i) = .ok es[i] := by
  rw [subscript_natCast, List.getElem?_eq_getElem h, Option.getD_some]

/-- Where there is no element there is null. -/
theorem subscript_of_outside {i : Int} (h : i < 0 ∨ es.length ≤ i) :
    subscript (.array id es) (.integer i) = .ok .null := by
  rcases Int.lt_or_le i 0 with hneg | hpos
  · rw [subscript, if_pos hneg]
  · obtain ⟨n, rfl⟩ := Int.eq_ofNat_of_zero_le hpos
    have hle : es.length ≤ n := by omega
    rw [subscript_natCast, List.getElem?_eq_none hle, Option.getD_none]

/-- Behind the first element the indices are less by one. -/
theorem subscript_cons_succ (id id' : Identity) (e : Value) (es : List Value) (j : Nat) :
    subscript (.array id (e :: es)) (.integer (j + 1)) =
      subscript (.array id' es) (.integer j) := by
  have hsucc : ((j : Int) + 1) = (j + 1 : Nat) := rfl
  rw [hsucc, subscript_natCast, subscript_natCast, List.getElem?_cons_succ]

theorem subscript_concat_self (id : Identity) (es : List Value) (v : Value) :
    subscript (.array id (es ++ [v])) (.integer es.length) = .ok v := by
  rw [subscript_natCast, List.getElem?_concat_length, Option.getD_some]

/-- An element at the end changes no other index, be it inside of the array or outside. -/
theorem subscript_concat_of_ne (id id' : Identity) (v : Value) {i : Int} (h : i ≠ es.length) :
    subscript (.array id (es ++ [v])) (.integer i) = subscript (.array id' es) (.integer i) := by
  have hlength : (es ++ [v]).length = es.length + 1 := List.length_append
  by_cases hi : i < 0 ∨ es.length ≤ i
  · rw [subscript_of_outside hi, subscript_of_outside (by omega)]
  · obtain ⟨n, rfl⟩ := Int.eq_ofNat_of_zero_le (Int.not_lt.mp fun hneg => hi (.inl hneg))
    rw [subscript_natCast, subscript_natCast, List.getElem?_append_left (by omega)]

end Value

/-! ### Builtins -/

namespace Builtin

open Value

theorem apply_len : len.apply depth [.array id es] s = .ok (.integer es.length) s := rfl

theorem apply_first : first.apply depth [.array id es] s = .ok (es.head?.getD .null) s := rfl

theorem apply_last : last.apply depth [.array id es] s = .ok (es.getLast?.getD .null) s := rfl

/-- Without its first element an array is a new one. -/
theorem apply_rest :
    rest.apply depth [.array id (e :: es)] s = .ok (.array s.next es) s.issue := rfl

/-- With one more element an array is a new one. -/
theorem apply_push :
    push.apply depth [.array id es, v] s = .ok (.array s.next (es ++ [v])) s.issue := rfl

theorem apply_last_concat :
    last.apply depth [.array id (es ++ [v])] s = .ok v s := by
  rw [apply_last, List.getLast?_concat, Option.getD_some]

/-- The first element is the one at zero, the last one is the one in front of the length. -/
theorem apply_ends (depth : Nat) (id : Identity) (s : Store) (h : es ≠ []) :
    ∃ f l, first.apply depth [.array id es] s = .ok f s ∧
      subscript (.array id es) (.integer 0) = .ok f ∧
      last.apply depth [.array id es] s = .ok l s ∧
      subscript (.array id es) (.integer (es.length - 1)) = .ok l := by
  have hlast : (es.length : Int) - 1 = (es.length - 1 : Nat) := by
    have := List.length_pos_iff.mpr h
    omega
  have hzero := subscript_natCast id es 0
  rw [← List.head?_eq_getElem?] at hzero
  refine ⟨_, _, apply_first, hzero, apply_last, ?_⟩
  rw [hlast, subscript_natCast, List.getLast?_eq_getElem?]

/-- **An array is a list.**  An index inside of it leads to the element there, and any other one to
null.  The builtins give the length and both ends of the list, its rest and the list with one more
element; without elements there are neither ends nor a rest, but null.  To take the first element
off and to put one at the end go together in either order. -/
theorem arrays_are_lists (depth : Nat) (id : Identity) (es : List Value) (v : Value) (s : Store) :
    let a : Value := .array id es
    ((∀ (i : Nat) (inside : i < es.length), a.subscript (.integer i) = .ok es[i]) ∧
      ∀ i : Int, i < 0 ∨ es.length ≤ i → a.subscript (.integer i) = .ok .null) ∧
    len.apply depth [a] s = .ok (.integer es.length) s ∧
    (es = [] → ∀ b ∈ [first, last, rest], b.apply depth [a] s = .ok .null s) ∧
    (es ≠ [] → ∃ f l r t,
      (first.apply depth [a] s = .ok f s ∧ a.subscript (.integer 0) = .ok f) ∧
      (last.apply depth [a] s = .ok l s ∧ a.subscript (.integer (es.length - 1)) = .ok l) ∧
      rest.apply depth [a] s = .ok r t ∧
      len.apply depth [r] t = .ok (.integer (es.length - 1)) t ∧
      ∀ j : Nat, r.subscript (.integer j) = a.subscript (.integer (j + 1))) ∧
    ∃ p t, push.apply depth [a, v] s = .ok p t ∧
      len.apply depth [p] t = .ok (.integer (es.length + 1)) t ∧
      last.apply depth [p] t = .ok v t ∧
      (∀ i : Int, i ≠ es.length → p.subscript (.integer i) = a.subscript (.integer i)) ∧
      p.subscript (.integer es.length) = .ok v ∧
      (es ≠ [] → ∃ r u q u' us i j,
        rest.apply depth [a] s = .ok r u ∧ push.apply depth [r, v] u = .ok q u' ∧
        q = .array i us ∧ rest.apply depth [p] t = .ok (.array j us) t.issue) := by
  refine ⟨⟨fun i => subscript_of_lt, fun i => subscript_of_outside⟩, apply_len, ?_, ?_, ?_⟩
  · rintro rfl b hb
    simp only [List.mem_cons, List.not_mem_nil, or_false] at hb
    rcases hb with rfl | rfl | rfl <;> rfl
  · intro h
    obtain ⟨f, l, hfirst, hzero, hlast, hend⟩ := apply_ends depth id s h
    obtain ⟨e, es, rfl⟩ := List.exists_cons_of_ne_nil h
    refine ⟨f, l, _, _, ⟨hfirst, hzero⟩, ⟨hlast, hend⟩, apply_rest, ?_, fun j => ?_⟩
    · rw [apply_len, List.length_cons]
      simp
    · exact (subscript_cons_succ id _ e es j).symm
  · refine ⟨_, _, apply_push, ?_, apply_last_concat, fun i => subscript_concat_of_ne _ _ v,
      subscript_concat_self _ _ _, fun h => ?_⟩
    · rw [apply_len, List.length_append]
      rfl
    · obtain ⟨e, es, rfl⟩ := List.exists_cons_of_ne_nil h
      exact ⟨_, _, _, _, _, _, _, apply_rest, apply_push, rfl, apply_rest⟩

/-- Three elements, with an index in front of them and one far behind, and no element. -/
theorem arrays_are_lists_three :
    let es := [Value.integer 5, .array 1 [], .string "x"]
    let a : Value := .array 2 es
    (2 < es.length ∧ a.subscript (.integer 2) = .ok (.string "x")) ∧
    (a.subscript (.integer (-1)) = .ok .null ∧
      a.subscript (.integer 1180591620717411303424) = .ok .null) ∧
    rest.apply 9 [.array 2 []] .empty = .ok .null .empty ∧
    (es ≠ [] ∧ ∃ r t, rest.apply 9 [a] .empty = .ok r t ∧
      ∀ j : Nat, r.subscript (.integer j) = a.subscript (.integer (j + 1))) ∧
    ∃ p t, push.apply 9 [a, .null] .empty = .ok p t ∧
      p.subscript (.integer 1) = a.subscript (.integer 1) ∧
      ∃ us j, rest.apply 9 [p] t = .ok (.array j us) t.issue := by
  intro es a
  have hne : es ≠ [] := by decide
  have hlt : 2 < es.length := by decide
  obtain ⟨⟨hinside, houtside⟩, -, -, hsome, p, t, hpush, -, -, hkept, -, hboth⟩ :=
    arrays_are_lists 9 2 es .null .empty
  obtain ⟨-, -, hnone, -⟩ := arrays_are_lists 9 2 [] .null .empty
  obtain ⟨-, -, r, u, -, -, hrest, -, hshift⟩ := hsome hne
  obtain ⟨-, -, -, -, us, -, j, -, -, -, hus⟩ := hboth hne
  refine ⟨⟨hlt, hinside 2 hlt⟩, ⟨houtside _ (.inl (by decide)), houtside _ (.inr (by decide))⟩,
    hnone rfl rest (by decide), ⟨hne, r, u, hrest, hshift⟩, p, t, hpush, ?_, us, j, hus⟩
  exact hkept 1 (by decide)

end Builtin

end Monkey
