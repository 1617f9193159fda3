/-!
# Lines

Line ends as text files have them, and a text as the list of its lines.

## Main definitions

* `unifyLineEnds` — every line end becomes a line feed.
* `splitLines` — the pieces between line feeds; there is always at least one.

## Main results

* `unifyLineEnds_of_not_mem` — a text without carriage returns stays as it is.
-/

namespace Monkey.Text

/-- A carriage return, alone or before a line feed, becomes a line feed. -/
def unifyLineEnds : List Char → List Char
  | [] => []
  | '\r' :: '\n' :: cs => '\n' :: unifyLineEnds cs
  | c :: cs => (if c = '\r' then '\n' else c) :: unifyLineEnds cs

/-- The pieces of a text between its line feeds. -/
def splitLines : List Char → List (List Char)
  | [] => [[]]
  | c :: cs =>
    if c = '\n' then [] :: splitLines cs
    else match splitLines cs with
      | [] => [[c]]
      | line :: lines => (c :: line) :: lines

theorem unifyLineEnds_of_not_mem {cs : List Char} (h : '\r' ∉ cs) :
    unifyLineEnds cs = cs := by
  fun_induction unifyLineEnds cs with
  | case1 => rfl
  | case2 cs ih => simp at h
  | case3 c cs _ ih =>
    simp only [List.mem_cons, not_or] at h
    rw [ih h.2, if_neg (Ne.symm h.1)]

end Monkey.Text
