import Monkey.Proofs.Syntax.Compositional

/-!
# A depth that is enough

The parser gives up when expressions are nested too deeply, or when a loop goes on without
reading anything.  The second never happens, and the first does not at a depth greater than
the number of tokens: a construct goes over a token before it asks for an expression further
down.

## Main definitions

* `Parser.Defined` — a parser gives something.

## Main results

* `safe_expression` — expressions, at a depth greater than the number of tokens.
* `isSome_parse` — every text is read at a depth greater than that of its tokens.
-/

namespace Monkey

/-- The parser does not give up. -/
def Parser.Defined (α : Type) (p : Parser α) (ts : List Token) : Prop := (p ts).isSome

open Monkey.Parser in
instance : Compositional Defined where
  of_pure _ _ := rfl
  of_current _ := rfl
  of_upcoming _ := rfl
  of_complain _ _ := rfl
  of_advance _ := rfl
  of_bind {_ _ p k ts} hp hk := by
    obtain ⟨r, hr⟩ := Option.isSome_iff_exists.mp hp
    unfold Defined
    rw [bind_apply, hr, Option.isSome_map]
    exact hk r hr
  of_iterate {_ _ step s ts} hround shortens hrest := by
    unfold Defined
    obtain ⟨⟨s' | a, count, complaints⟩, hr⟩ := Option.isSome_iff_exists.mp hround
    · have shorter := shortens _ _ _ hr
      rw [List.length_drop] at shorter
      rw [iterate_of_inl hr (List.ne_nil_of_length_pos (by omega)) (by omega), Option.isSome_map]
      exact hrest s' count complaints hr
    · rw [iterate_of_inr hr]
      rfl

namespace Parse

open Monkey.Parser

/-- Expressions are read at every depth that is greater than the number of tokens. -/
theorem safe_expression (depth : Nat) : HoldsAll Defined depth (expression (depth + 1)) := by
  induction depth with
  | zero =>
    intro level ts hts
    rw [List.eq_nil_of_length_eq_zero (Nat.le_zero.mp hts)]
    exact nested_nil _ level
  | succ depth ih => exact holds_nested ih

end Parse

/-- Every row of tokens is read at a depth that is greater than their number. -/
theorem isSome_program {ts : List Token} {depth : Nat} (h : ts.length < depth) :
    (Parse.program (Parse.expression depth) ts).isSome := by
  obtain ⟨depth, rfl⟩ := Nat.exists_eq_add_one_of_ne_zero (Nat.ne_zero_of_lt h)
  exact Parse.holds_program (Parse.safe_expression depth) _ (Nat.le_of_lt_succ h)

/-- Every text is read at a depth that is greater than the number of its tokens. -/
theorem isSome_parse {text : String} {depth : Nat} (h : (tokens text).length < depth) :
    (parse depth text).isSome := by
  rw [parse, Option.isSome_map]
  exact isSome_program h

end Monkey
