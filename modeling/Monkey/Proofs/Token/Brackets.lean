import Monkey.Proofs.Token.Spans
import Monkey.Token.Brackets

/-!
# Open brackets, character by character

The brackets that a text leaves open are counted over its tokens.  Characters will do as well, if
one knows at each of them whether it stands in a string: no other token has a quote in it, and only
the brackets themselves have a bracket in them.  A blank then counts for nothing, wherever it
stands, though it may part a token in two or belong to a string.

## Main definitions

* `BracketCount` — how many brackets are open, and whether a string is.
* `BracketCount.after`, `BracketCount.afterAll` — the count behind a character and behind some.

## Main results

* `bracketDepth_eq_count` — the brackets that a text leaves open, by its characters.
* `bracketDepth_filter` — blanks do not change how many brackets a text leaves open.
-/

namespace Monkey

/-- How many brackets are open, and whether a string is. -/
structure BracketCount where
  quoted : Bool
  depth : Nat
  deriving DecidableEq, Repr

namespace BracketCount

/-- The count in front of a text. -/
def start : BracketCount := ⟨false, 0⟩

/-- The count behind a character.  In a string only the quote counts. -/
def after (s : BracketCount) (c : Char) : BracketCount :=
  if c = '"' then { s with quoted := !s.quoted }
  else if s.quoted then s
  else if c ∈ ['(', '[', '{'] then { s with depth := s.depth + 1 }
  else if c ∈ [')', ']', '}'] then { s with depth := s.depth - 1 }
  else s

/-- The count behind some characters. -/
def afterAll (s : BracketCount) (cs : List Char) : BracketCount :=
  cs.foldl after s

variable {c : Char} {cs : List Char} {depth : Nat}

@[simp] theorem afterAll_nil (s : BracketCount) : s.afterAll [] = s := rfl

@[simp] theorem afterAll_cons (s : BracketCount) (c : Char) (cs : List Char) :
    s.afterAll (c :: cs) = (s.after c).afterAll cs := rfl

@[simp] theorem afterAll_append (s : BracketCount) (cs ds : List Char) :
    s.afterAll (cs ++ ds) = (s.afterAll cs).afterAll ds :=
  List.foldl_append

/-! ### Characters that do not count -/

/-- The characters that count: quotes and brackets. -/
def Counts (c : Char) : Prop := c ∈ ['"', '(', '[', '{', ')', ']', '}']

instance (c : Char) : Decidable (Counts c) := inferInstanceAs (Decidable (c ∈ _))

theorem after_of_not_counts (h : ¬ Counts c) (s : BracketCount) : s.after c = s := by
  simp_all [Counts, after]

theorem afterAll_of_not_counts (h : ∀ c ∈ cs, ¬ Counts c) (s : BracketCount) :
    s.afterAll cs = s := by
  induction cs with
  | nil => rfl
  | cons c cs ih =>
    obtain ⟨hc, hcs⟩ := List.forall_mem_cons.mp h
    rw [afterAll_cons, after_of_not_counts hc, ih hcs]

theorem not_counts_of_isBlank (h : Token.isBlank c) : ¬ Counts c := by
  simp only [Token.isBlank, Bool.or_eq_true, decide_eq_true_eq] at h
  rcases h with ((rfl | rfl) | rfl) | rfl <;> decide

theorem not_counts_of_isWordPart (h : Token.isWordPart c) : ¬ Counts c := by
  intro hc
  simp only [Counts, List.mem_cons, List.not_mem_nil, or_false] at hc
  rcases hc with rfl | rfl | rfl | rfl | rfl | rfl | rfl <;> revert h <;> decide

theorem afterAll_word (letter : Token.isLetter c) (parts : ∀ d ∈ cs, Token.isWordPart d)
    (s : BracketCount) : s.afterAll (c :: cs) = s := by
  have hall : ∀ d ∈ c :: cs, Token.isWordPart d :=
    List.forall_mem_cons.mpr ⟨by simp [Token.isWordPart, letter], parts⟩
  exact afterAll_of_not_counts (fun d hd => not_counts_of_isWordPart (hall d hd)) s

/-- The brackets are symbols, so an illegal character does not count. -/
theorem not_counts_of_illegal (not_quote : c ≠ '"') (not_symbol : ¬ Lexeme.IsSymbolPart c) :
    ¬ Counts c := by
  intro hc
  have hnone := Lexeme.ofChar?_eq_none_iff.mpr not_symbol
  simp only [Counts, List.mem_cons, List.not_mem_nil, or_false] at hc
  rcases hc with rfl | rfl | rfl | rfl | rfl | rfl | rfl
  · exact not_quote rfl
  all_goals contradiction

/-- In a string nothing counts but the quote. -/
theorem afterAll_quoted (h : '"' ∉ cs) (depth : Nat) :
    (⟨true, depth⟩ : BracketCount).afterAll cs = ⟨true, depth⟩ := by
  induction cs with
  | nil => rfl
  | cons c cs ih =>
    simp only [List.mem_cons, not_or] at h
    rw [afterAll_cons, after, if_neg (Ne.symm h.1), if_pos rfl, ih h.2]

/-- A quote opens a string. -/
theorem afterAll_unclosed (h : '"' ∉ cs) (depth : Nat) :
    (⟨false, depth⟩ : BracketCount).afterAll ('"' :: cs) = ⟨true, depth⟩ :=
  afterAll_quoted h depth

/-- Blanks do not count, in a string or outside of it. -/
theorem afterAll_filter (s : BracketCount) (cs : List Char) :
    s.afterAll (cs.filter fun c => !Token.isBlank c) = s.afterAll cs := by
  induction cs generalizing s with
  | nil => rfl
  | cons c cs ih =>
    by_cases hc : Token.isBlank c
    · rw [List.filter_cons_of_neg (by simp [hc]), ih, afterAll_cons,
        after_of_not_counts (not_counts_of_isBlank hc)]
    · rw [List.filter_cons_of_pos (by simp [hc]), afterAll_cons, afterAll_cons, ih]

end BracketCount

/-! ### Lexemes -/

namespace Lexeme

open Token BracketCount

variable {l : Lexeme} {rest : List Char}

/-- No word is a bracket. -/
theorem depthAfter_ofWord (depth : Nat) (word : String) :
    Kind.depthAfter depth (Kind.ofWord word) = depth := by
  unfold Kind.ofWord
  repeat' split
  all_goals rfl

/-- A lexeme of the tables counts as its kind does, and no string is open behind it. -/
theorem WellFormed.afterAll_spelling (h : l.WellFormed) (depth : Nat) :
    (⟨false, depth⟩ : BracketCount).afterAll l.spelling = ⟨false, l.kind.depthAfter depth⟩ := by
  cases h with
  | @keyword word kind listed =>
    obtain ⟨c, cs, hword, letter, parts⟩ := exists_cons_of_mem_keywords listed
    rw [plain, hword, afterAll_word letter parts, ← ofWord_of_mem_keywords listed,
      depthAfter_ofWord]
  | identifier letter parts other => exact afterAll_word letter parts _
  | number digits =>
    refine afterAll_of_not_counts (fun d hd => not_counts_of_isWordPart ?_) _
    simp [isWordPart, digits d hd]
  | string closed =>
    rw [← List.cons_append, afterAll_append, afterAll_unclosed closed]
    rfl
  | symbol listed =>
    have all : ∀ s ∈ symbols,
        (⟨false, depth⟩ : BracketCount).afterAll s.1 = ⟨false, s.2.depthAfter depth⟩ := by
      simp [symbols, after, Kind.depthAfter, Kind.opens, Kind.closes]
    exact all _ listed
  | illegal not_blank not_part not_quote not_symbol =>
    rw [plain, afterAll_cons, after_of_not_counts (not_counts_of_illegal not_quote not_symbol)]
    rfl

end Lexeme

/-! ### Texts -/

/-- The count over the tokens is the count over the characters, wherever a text begins and however
many brackets are open in front of it. -/
theorem foldl_depthAfter_tokens (cs : List Char) (p : Place) (depth : Nat) :
    ((⟨p, cs⟩ : Scanner).tokens.map Token.kind).foldl Token.Kind.depthAfter depth =
      ((⟨false, depth⟩ : BracketCount).afterAll cs).depth := by
  induction cs using Lexeme.text_induction generalizing p depth with
  | nil =>
    rw [Scanner.tokens_nil]
    rfl
  | blank c cs hc ih =>
    rw [Scanner.tokens_blank hc, ih, BracketCount.afterAll_cons,
      BracketCount.after_of_not_counts (BracketCount.not_counts_of_isBlank hc)]
  | lexeme l rest hl ih =>
    rw [Scanner.tokens_lexeme hl, List.map_cons, List.foldl_cons, ih, BracketCount.afterAll_append]
    rcases hl.wellFormed_or_unclosed with hformed | ⟨rfl, content, hquote, rfl⟩
    · rw [hformed.afterAll_spelling]
      rfl
    · -- the text ends in the string, and the string opens no bracket
      rw [BracketCount.afterAll_unclosed hquote]
      rfl

/-- The brackets that a text leaves open, by its characters. -/
theorem bracketDepth_eq_count (cs : List Char) :
    bracketDepth (String.ofList cs) = (BracketCount.start.afterAll cs).depth := by
  rw [bracketDepth, tokens, Scanner.ofText, String.toList_ofList]
  exact foldl_depthAfter_tokens cs .start 0

/-- **Blanks do not change how many brackets a text leaves open**, wherever they stand. -/
theorem bracketDepth_filter (cs : List Char) :
    bracketDepth (String.ofList (cs.filter fun c => !Token.isBlank c)) =
      bracketDepth (String.ofList cs) := by
  rw [bracketDepth_eq_count, bracketDepth_eq_count, BracketCount.afterAll_filter]

/-- The line feed parts an operator in two, and the string is another one with the blank in it. -/
example : bracketDepth "f(a =\n= \"( \" [1" = bracketDepth "f(a==\"(\"[1" := by decide +kernel

end Monkey
