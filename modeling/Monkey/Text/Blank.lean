/-!
# Blanks

The characters that count as blank around a command: the Unicode spaces, the line
and paragraph separators, and the separators among the control characters.

## Main definitions

* `isBlank` — the class.
* `stripLeft`, `strip` — a text without the blanks at its ends.
* `firstWord` — the first word of a text and what follows it.
-/

namespace Monkey.Text

/-- The blanks. -/
def isBlank (c : Char) : Bool :=
  let n := c.toNat
  (0x09 ≤ n && n ≤ 0x0d) || (0x1c ≤ n && n ≤ 0x20) || n = 0x85 || n = 0xa0 || n = 0x1680
    || (0x2000 ≤ n && n ≤ 0x200a) || n = 0x2028 || n = 0x2029 || n = 0x202f || n = 0x205f
    || n = 0x3000

/-- A text without the blanks in front. -/
def stripLeft (cs : List Char) : List Char :=
  cs.dropWhile isBlank

/-- A text without the blanks at either end. -/
def strip (cs : List Char) : List Char :=
  (stripLeft (stripLeft cs).reverse).reverse

/-- The word in front of a stripped text, and the rest without the blanks at its
ends. -/
def firstWord (cs : List Char) : List Char × List Char :=
  (cs.takeWhile fun c => !isBlank c, strip (cs.dropWhile fun c => !isBlank c))

theorem isBlank_of_isWhitespace {c : Char} (h : c.isWhitespace = true) : isBlank c = true := by
  simp only [Char.isWhitespace, Bool.or_eq_true, decide_eq_true_eq] at h
  rcases h with (((rfl | rfl) | rfl) | rfl) <;> decide

end Monkey.Text
