import Mathlib.Data.List.Induction
import Mathlib.Order.Bounds.Basic
import Monkey.Proofs.Token.Brackets

/-!
# Brackets that stay open

The brackets of a text outside of its strings are a row of openers and closers.  A closer with
nothing open counts for nothing, and what stands in front of it no longer matters.  So the brackets
that are open depend on an end of the row only: there are as many as the openers outnumber the
closers by, in the end of the row in which they do so the most.

## Main definitions

* `BracketCount.outside` — the brackets outside of strings.
* `excess`, `Excesses` — by how many the openers outnumber the closers in a row, and in its ends.

## Main results

* `BracketCount.depth_afterAll` — a text counts as its brackets outside of strings do.
* `BracketCount.isGreatest_excesses` — a row of brackets counts as the end with most openers does.
* `bracketDepth_is_greatest_excess` — the brackets that a text leaves open, by its characters and
  by the ends of its row of brackets.
-/

namespace Monkey

/-- The opening brackets. -/
abbrev openers : List Char := ['(', '[', '{']

/-- The closing brackets. -/
abbrev closers : List Char := [')', ']', '}']

/-! ### Brackets outside of strings -/

namespace BracketCount

variable {c : Char} {cs : List Char}

/-- The brackets of a text that stand outside of its strings.  The text may begin in a string. -/
def outside (quoted : Bool) : List Char → List Char
  | [] => []
  | c :: cs =>
    if c = '"' then outside (!quoted) cs
    else if ¬ quoted ∧ (c ∈ openers ∨ c ∈ closers) then c :: outside quoted cs
    else outside quoted cs

theorem mem_outside {quoted : Bool} (h : c ∈ outside quoted cs) : c ∈ openers ∨ c ∈ closers := by
  fun_induction outside quoted cs with
  | case1 => cases h
  | case2 _ _ ih => exact ih h
  | case3 _ d ds _ hd ih =>
    rcases List.mem_cons.mp h with rfl | h
    · exact hd.2
    · exact ih h
  | case4 _ _ _ _ _ ih => exact ih h

theorem after_opener (h : c ∈ openers) (depth : Nat) :
    (⟨false, depth⟩ : BracketCount).after c = ⟨false, depth + 1⟩ := by
  have hquote : c ≠ '"' := by rintro rfl; revert h; decide
  rw [after, if_neg hquote, if_neg Bool.false_ne_true, if_pos h]

theorem after_closer (h : c ∈ closers) (depth : Nat) :
    (⟨false, depth⟩ : BracketCount).after c = ⟨false, depth - 1⟩ := by
  have hquote : c ≠ '"' := by rintro rfl; revert h; decide
  have hopener : c ∉ openers := by
    intro h'
    simp only [List.mem_cons, List.not_mem_nil, or_false] at h h'
    rcases h with rfl | rfl | rfl <;> simp at h'
  rw [after, if_neg hquote, if_neg Bool.false_ne_true, if_neg hopener, if_pos h]

/-- A bracket opens no string. -/
theorem exists_after_bracket (h : c ∈ openers ∨ c ∈ closers) (depth : Nat) :
    ∃ n, (⟨false, depth⟩ : BracketCount).after c = ⟨false, n⟩ := by
  rcases h with h | h
  · exact ⟨depth + 1, after_opener h depth⟩
  · exact ⟨depth - 1, after_closer h depth⟩

/-- In a string nothing counts but the quote, and outside of it nothing but that and brackets. -/
theorem after_of_not_outside {s : BracketCount} (hquote : c ≠ '"')
    (h : ¬(¬ s.quoted ∧ (c ∈ openers ∨ c ∈ closers))) : s.after c = s := by
  by_cases hquoted : s.quoted
  · rw [after, if_neg hquote, if_pos hquoted]
  · refine after_of_not_counts (fun hc => h ⟨hquoted, ?_⟩) s
    simpa [Counts, hquote, or_assoc] using hc

/-- **A text counts as its brackets outside of strings do.** -/
theorem depth_afterAll (s : BracketCount) (cs : List Char) :
    (s.afterAll cs).depth =
      ((⟨false, s.depth⟩ : BracketCount).afterAll (outside s.quoted cs)).depth := by
  induction cs generalizing s with
  | nil => rfl
  | cons c cs ih =>
    rw [afterAll_cons, ih, outside]
    split_ifs with hquote hbracket
    · rw [after, if_pos hquote]
    · obtain ⟨quoted, depth⟩ := s
      obtain rfl : quoted = false := by simpa using hbracket.1
      obtain ⟨n, hn⟩ := exists_after_bracket hbracket.2 depth
      rw [afterAll_cons, hn]
    · rw [after_of_not_outside hquote hbracket]

end BracketCount

/-! ### The ends of a row -/

/-- By how many the openers in a row of brackets outnumber the closers. -/
def excess (cs : List Char) : Int :=
  cs.countP (· ∈ openers) - cs.countP (· ∈ closers)

/-- By how many the openers outnumber the closers in the ends of a row, the empty one included. -/
def Excesses (cs : List Char) : Set Int :=
  {n | ∃ ds, ds <:+ cs ∧ excess ds = n}

variable {c : Char} {cs : List Char}

@[simp] theorem excess_nil : excess [] = 0 := rfl

theorem excess_append (cs ds : List Char) : excess (cs ++ ds) = excess cs + excess ds := by
  simp only [excess, List.countP_append]
  omega

theorem excess_opener (h : c ∈ openers) : excess [c] = 1 := by
  simp only [List.mem_cons, List.not_mem_nil, or_false] at h
  rcases h with rfl | rfl | rfl <;> rfl

theorem excess_closer (h : c ∈ closers) : excess [c] = -1 := by
  simp only [List.mem_cons, List.not_mem_nil, or_false] at h
  rcases h with rfl | rfl | rfl <;> rfl

theorem isGreatest_excesses_nil : IsGreatest (Excesses []) 0 := by
  refine ⟨⟨[], List.nil_suffix, rfl⟩, ?_⟩
  rintro _ ⟨ds, hds, rfl⟩
  rw [List.suffix_nil.mp hds, excess_nil]

/-- One more bracket belongs to every end but the empty one. -/
theorem isGreatest_excesses_concat {n : Int} (h : IsGreatest (Excesses cs) n) (c : Char) :
    IsGreatest (Excesses (cs ++ [c])) (max 0 (n + excess [c])) := by
  constructor
  · rcases le_total 0 (n + excess [c]) with hn | hn
    · obtain ⟨ds, hds, rfl⟩ := h.1
      rw [max_eq_right hn]
      exact ⟨ds ++ [c], List.suffix_concat_iff.mpr (.inr ⟨ds, rfl, hds⟩), excess_append ds [c]⟩
    · rw [max_eq_left hn]
      exact ⟨[], List.nil_suffix, rfl⟩
  · rintro _ ⟨ds, hds, rfl⟩
    rcases List.suffix_concat_iff.mp hds with rfl | ⟨es, rfl, hes⟩
    · exact le_max_left _ _
    · have hle : excess es ≤ n := h.2 ⟨es, hes, rfl⟩
      rw [excess_append]
      omega

namespace BracketCount

/-- **A row of brackets counts as the end with the greatest excess does.** -/
theorem isGreatest_excesses (h : ∀ c ∈ cs, c ∈ openers ∨ c ∈ closers) :
    ∃ n : Nat, start.afterAll cs = ⟨false, n⟩ ∧ IsGreatest (Excesses cs) n := by
  induction cs using List.reverseRecOn with
  | nil => exact ⟨0, rfl, isGreatest_excesses_nil⟩
  | append_singleton cs c ih =>
    obtain ⟨hcs, hc⟩ := List.forall_mem_append.mp h
    obtain ⟨n, hn, hgreatest⟩ := ih hcs
    have hgreatest := isGreatest_excesses_concat hgreatest c
    rw [afterAll_append, hn, afterAll_cons, afterAll_nil]
    rcases hc c (List.mem_singleton_self c) with hc | hc
    · refine ⟨n + 1, after_opener hc n, ?_⟩
      have hmax : max 0 ((n : Int) + 1) = (n + 1 : Nat) := by omega
      rwa [excess_opener hc, hmax] at hgreatest
    · -- with nothing open the count stays where it is, and the empty end is the best one
      refine ⟨n - 1, after_closer hc n, ?_⟩
      have hmax : max 0 ((n : Int) + -1) = (n - 1 : Nat) := by omega
      rwa [excess_closer hc, hmax] at hgreatest

end BracketCount

/-- **The brackets that a text leaves open.**  Counting them over the tokens of a text is the same
as going over its characters once, with a flag that every quote turns over, where brackets count
only while it is off, and a closing bracket takes nothing away from zero.  And it is the greatest
number by which the openers outnumber the closers in an end of the row of the brackets that stand
outside of strings. -/
theorem bracketDepth_is_greatest_excess (text : String) :
    bracketDepth text = (BracketCount.start.afterAll text.toList).depth ∧
    IsGreatest
      {n : Int | ∃ ds, ds <:+ BracketCount.outside false text.toList ∧
        (ds.countP (· ∈ openers) : Int) - ds.countP (· ∈ closers) = n}
      (bracketDepth text) := by
  have hcount : bracketDepth text = (BracketCount.start.afterAll text.toList).depth := by
    rw [← bracketDepth_eq_count, String.ofList_toList]
  obtain ⟨n, hn, hgreatest⟩ :=
    BracketCount.isGreatest_excesses fun _ hc => BracketCount.mem_outside hc
  refine ⟨hcount, ?_⟩
  rw [hcount, BracketCount.depth_afterAll]
  exact hn ▸ hgreatest

/-- The string closes nothing, and the closer in front of the best end finds nothing open. -/
example :
    bracketDepth ") [ \"]]\" (f]" = 1 ∧ excess "[(]".toList = 1 ∧ excess ")[(]".toList = 0 := by
  decide +kernel

end Monkey
