import Monkey.Proofs.Token.Spans
import Monkey.Text.Lines

/-!
# Line by line

Where no string goes on behind the end of a line, each line of a text can be read on its own.  A
line feed outside of a string belongs to no token and nothing runs on over it, so what stands in
front of it is read as if the text ended there, and what stands behind it as if the text began
there, at the first column of the next line.

## Main definitions

* `Token.EndsOnLine` — a token that does not go on behind the end of its line.
* `Token.onLine`, `Token.inLine` — a token on a line of another number, and what it tells apart from
  that number.
* `lineTokens` — the tokens of a line with its number.

## Main results

* `Text.lines_induction` — a text is a line, or a line and a text behind it.
* `Scanner.tokens_line_feed` — a line feed parts the tokens of a text.
* `tokens_eq_flatMap_lines`, `lines_are_read_alone` — the tokens of a text are those of its lines.
-/

namespace Monkey

/-! ### Lines -/

namespace Text

variable {line : List Char}

theorem splitLines_of_not_mem (h : '\n' ∉ line) : splitLines line = [line] := by
  induction line with
  | nil => rfl
  | cons c line ih =>
    simp only [List.mem_cons, not_or] at h
    simp only [splitLines, if_neg (Ne.symm h.1), ih h.2]

/-- A line feed ends a line. -/
theorem splitLines_append (h : '\n' ∉ line) (rest : List Char) :
    splitLines (line ++ '\n' :: rest) = line :: splitLines rest := by
  induction line with
  | nil => rfl
  | cons c line ih =>
    simp only [List.mem_cons, not_or] at h
    simp only [List.cons_append, splitLines, if_neg (Ne.symm h.1), ih h.2]

/-- Induction along the lines of a text: it is a line, or a line in front of a line feed and of
other lines. -/
@[elab_as_elim]
theorem lines_induction {motive : List Char → Prop} (last : ∀ line, '\n' ∉ line → motive line)
    (more : ∀ line rest, '\n' ∉ line → motive rest → motive (line ++ '\n' :: rest))
    (cs : List Char) : motive cs := by
  induction hn : cs.length using Nat.strongRecOn generalizing cs with
  | ind n ih =>
    by_cases h : '\n' ∈ cs
    · obtain ⟨line, rest, rfl, hline⟩ := List.eq_append_cons_of_mem h
      have shorter : rest.length < n := by
        rw [← hn, List.length_append, List.length_cons]
        omega
      exact more line rest hline (ih _ shorter rest rfl)
    · exact last cs h

end Text

/-! ### Tokens on lines -/

/-- A token that does not go on behind the end of its line: all are but strings with a line feed
inside. -/
def Token.EndsOnLine (t : Token) : Prop := t.kind = .string → '\n' ∉ t.literal.toList

/-- A token on a line of another number. -/
def Token.onLine (number : Nat) (t : Token) : Token := { t with line := number }

/-- On one line the column goes on, and the line stays. -/
theorem Place.afterAll_of_not_mem {cs : List Char} (h : '\n' ∉ cs) (p : Place) :
    p.afterAll cs = ⟨p.offset + cs.length, p.line, p.column + cs.length⟩ := by
  induction cs generalizing p with
  | nil => rfl
  | cons c cs ih =>
    simp only [List.mem_cons, not_or] at h
    rw [afterAll_cons, after_of_ne (Ne.symm h.1), ih h.2, List.length_cons]
    simp only [mk.injEq, true_and]
    omega

namespace Scanner

/-- The tokens of a line do not depend on the number of the line. -/
theorem tokens_of_line {cs : List Char} (h : '\n' ∉ cs) {p q : Place} (hcolumn : p.column = q.column) :
    (⟨p, cs⟩ : Scanner).tokens = (⟨q, cs⟩ : Scanner).tokens.map (Token.onLine p.line) := by
  induction cs using Lexeme.text_induction generalizing p q with
  | nil => rw [tokens_nil, tokens_nil, List.map_nil]
  | blank c cs hc ih =>
    simp only [List.mem_cons, not_or] at h
    have hne : c ≠ '\n' := Ne.symm h.1
    have hplace : (p.after c).column = (q.after c).column ∧ (p.after c).line = p.line := by
      simp [Place.after_of_ne hne, hcolumn]
    rw [tokens_blank hc, tokens_blank hc, ih h.2 hplace.1, hplace.2]
  | lexeme l rest hl ih =>
    simp only [List.mem_append, not_or] at h
    have hplace : (p.afterAll l.spelling).column = (q.afterAll l.spelling).column ∧
        (p.afterAll l.spelling).line = p.line := by
      simp [Place.afterAll_of_not_mem h.1, hcolumn]
    have htoken : l.token p = (l.token q).onLine p.line := by
      simp [Lexeme.token, Token.onLine, hcolumn]
    rw [tokens_lexeme hl, tokens_lexeme hl, List.map_cons, ih h.2 hplace.1, hplace.2, htoken]

/-- The first token of a text that begins with no blank. -/
theorem exists_tokens_cons {c : Char} (hc : Token.isBlank c = false) (cs : List Char) (p : Place) :
    ∃ ts, (⟨p, c :: cs⟩ : Scanner).tokens = (Lexeme.first c cs).token p :: ts := by
  have hskip : (⟨p, c :: cs⟩ : Scanner).skipBlanks = ⟨p, c :: cs⟩ := by
    simp [skipBlanks, skip, hc]
  rw [tokens_eq, next?, hskip]
  exact ⟨_, rfl⟩

/-- A string that is open at the end of a line goes on behind it. -/
theorem not_endsOnLine_of_unclosed {content : List Char} (h : '"' ∉ content) (rest : List Char)
    (p : Place) : ∃ t ∈ (⟨p, '"' :: (content ++ '\n' :: rest)⟩ : Scanner).tokens, ¬ t.EndsOnLine := by
  obtain ⟨ts, hts⟩ := exists_tokens_cons (c := '"') rfl (content ++ '\n' :: rest) p
  have hcontent : ∀ c ∈ content, decide (c ≠ '"') = true := by
    intro c hc
    simpa using ne_of_mem_of_not_mem hc h
  refine ⟨_, hts ▸ List.mem_cons_self, fun hends => hends rfl ?_⟩
  rw [Lexeme.token, String.toList_ofList, Lexeme.first, if_pos rfl, Lexeme.quoted,
    List.takeWhile_append_of_pos hcontent]
  simp

/-- **A line feed parts the tokens of a text**, unless it stands in a string. -/
theorem tokens_line_feed (line rest : List Char) (p : Place)
    (h : ∀ t ∈ (⟨p, line ++ '\n' :: rest⟩ : Scanner).tokens, t.EndsOnLine) :
    (⟨p, line ++ '\n' :: rest⟩ : Scanner).tokens =
      (⟨p, line⟩ : Scanner).tokens ++ (⟨(p.afterAll line).after '\n', rest⟩ : Scanner).tokens := by
  induction line using Lexeme.text_induction generalizing p with
  | nil =>
    rw [tokens_nil, List.nil_append, List.nil_append, Place.afterAll_nil]
    exact tokens_blank rfl p rest
  | blank c cs hc ih =>
    rw [List.cons_append, tokens_blank hc] at h ⊢
    rw [tokens_blank hc, ih _ h, Place.afterAll_cons]
  | lexeme l cs hl ih =>
    rw [List.append_assoc] at h ⊢
    have stands : l.StandsBefore (cs ++ '\n' :: rest) := by
      rcases hl.wellFormed_or_unclosed with hformed | ⟨rfl, content, hquote, rfl⟩
      · by_cases hcs : cs = []
        · subst hcs
          refine hformed.standsBefore ?_
          rintro c ⟨⟩
          rfl
        · exact hl.append hcs _
      · obtain ⟨t, ht, hnot⟩ := not_endsOnLine_of_unclosed hquote rest p
        exact absurd (h t ht) hnot
    rw [tokens_lexeme stands] at h ⊢
    rw [tokens_lexeme hl, ih _ (List.forall_mem_cons.mp h).2, List.cons_append,
      Place.afterAll_append]

end Scanner

/-! ### The lines of a text -/

/-- What a token tells, apart from the number of its line. -/
def Token.inLine (t : Token) : Token.Kind × String × Nat := (t.kind, t.literal, t.column)

/-- The tokens of a line of a text, on the line of that number. -/
def lineTokens (line : List Char × Nat) : List Token :=
  (tokens (String.ofList line.1)).map (Token.onLine line.2)

/-- The tokens of a text are those of its lines, wherever a line begins. -/
theorem tokens_eq_flatMap_lines (cs : List Char) (p : Place) (hcolumn : p.column = 1)
    (h : ∀ t ∈ (⟨p, cs⟩ : Scanner).tokens, t.EndsOnLine) :
    (⟨p, cs⟩ : Scanner).tokens = ((Text.splitLines cs).zipIdx p.line).flatMap lineTokens := by
  have hline : ∀ {line}, '\n' ∉ line → ∀ {p : Place}, p.column = 1 →
      (⟨p, line⟩ : Scanner).tokens = lineTokens (line, p.line) := by
    intro line hline p hcolumn
    rw [lineTokens, tokens, Scanner.ofText, String.toList_ofList]
    exact Scanner.tokens_of_line hline hcolumn
  induction cs using Text.lines_induction generalizing p with
  | last line hmem =>
    rw [hline hmem hcolumn, Text.splitLines_of_not_mem hmem]
    simp
  | more line rest hmem ih =>
    have hnext : ((p.afterAll line).after '\n').line = p.line + 1 := by
      rw [Place.afterAll_of_not_mem hmem]
      rfl
    have hparts := Scanner.tokens_line_feed line rest p h
    rw [hparts] at h ⊢
    rw [Text.splitLines_append hmem, List.zipIdx_cons, List.flatMap_cons, hline hmem hcolumn,
      ih _ rfl (List.forall_mem_append.mp h).2, hnext]

theorem map_inLine_lineTokens (line : List Char × Nat) :
    (lineTokens line).map Token.inLine = (tokens (String.ofList line.1)).map Token.inLine := by
  rw [lineTokens, List.map_map]
  rfl

theorem line_of_mem_lineTokens {line : List Char × Nat} {t : Token} (h : t ∈ lineTokens line) :
    t.line = line.2 := by
  obtain ⟨u, -, rfl⟩ := List.mem_map.mp h
  rfl

/-- The tokens of a line are all on it. -/
theorem filter_lineTokens (line : List Char × Nat) (number : Nat) :
    (lineTokens line).filter (·.line = number) =
      if line.2 = number then lineTokens line else [] := by
  split
  · next h =>
    rw [List.filter_eq_self]
    intro t ht
    simpa [line_of_mem_lineTokens ht] using h
  · next h =>
    rw [List.filter_eq_nil_iff]
    intro t ht
    simpa [line_of_mem_lineTokens ht] using h

/-- The tokens of the lines on one of them. -/
theorem filter_flatMap_lineTokens {lines : List (List Char)} {k : Nat} {line : List Char}
    (h : lines[k]? = some line) (first : Nat) :
    ((lines.zipIdx first).flatMap lineTokens).filter (·.line = first + k) =
      lineTokens (line, first + k) := by
  induction lines generalizing k first with
  | nil => contradiction
  | cons l lines ih =>
    rw [List.zipIdx_cons, List.flatMap_cons, List.filter_append, filter_lineTokens]
    cases k with
    | zero =>
      obtain rfl : l = line := Option.some.inj h
      have hothers : ((lines.zipIdx (first + 1)).flatMap lineTokens).filter
          (·.line = first + 0) = [] := by
        rw [List.filter_flatMap, List.flatMap_eq_nil_iff]
        intro r hr
        have hle : first + 1 ≤ r.2 := (List.mem_zipIdx hr).1
        rw [filter_lineTokens, if_neg (by omega)]
      rw [hothers, if_pos (Nat.add_zero first).symm, List.append_nil, Nat.add_zero]
    | succ k =>
      have hnumber : first + (k + 1) = first + 1 + k := by omega
      rw [if_neg (by omega), List.nil_append, hnumber]
      exact ih h (first + 1)

/-- **The lines of a text can be read one by one**, if no string goes on behind the end of a line.
The tokens of the lines in a row have the kinds, the literals and the columns of the tokens of the
text, and the tokens of a line are those of the text that have its number. -/
theorem lines_are_read_alone {text : String}
    (h : ∀ t ∈ tokens text, t.kind = .string → '\n' ∉ t.literal.toList) :
    let lines := Text.splitLines text.toList
    (lines.flatMap fun line => (tokens (String.ofList line)).map Token.inLine) =
        (tokens text).map Token.inLine ∧
      ∀ k line, lines[k]? = some line →
        (tokens text).filter (·.line = k + 1) =
          (tokens (String.ofList line)).map (Token.onLine (k + 1)) := by
  intro lines
  have hrow : tokens text = (lines.zipIdx 1).flatMap lineTokens :=
    tokens_eq_flatMap_lines text.toList .start rfl h
  constructor
  · calc lines.flatMap (fun line => (tokens (String.ofList line)).map Token.inLine)
        = ((lines.zipIdx 1).map Prod.fst).flatMap
            fun line => (tokens (String.ofList line)).map Token.inLine := by
          rw [List.zipIdx_map_fst]
      _ = (lines.zipIdx 1).flatMap fun r => (lineTokens r).map Token.inLine := by
          simp only [List.flatMap_map, map_inLine_lineTokens]
      _ = (tokens text).map Token.inLine := by rw [hrow, List.map_flatMap]
  · intro k line hk
    rw [hrow, Nat.add_comm]
    exact filter_flatMap_lineTokens hk 1

/-- A line feed behind an exclamation mark and in front of an equals sign, an empty line, and a
string that the last line leaves open. -/
theorem lines_are_read_alone_open :
    let text := "a !\n= \"(\"\n\n  \"b"
    (∀ t ∈ tokens text, t.kind = .string → '\n' ∉ t.literal.toList) ∧
      Text.splitLines text.toList =
        ["a !".toList, "= \"(\"".toList, [], "  \"b".toList] ∧
      (tokens text).filter (·.line = 2) =
        (tokens "= \"(\"").map (Token.onLine 2) ∧
      (tokens text).filter (·.line = 4) = [⟨.string, "b", 4, 3⟩] := by
  intro text
  have hends : ∀ t ∈ tokens text, t.kind = .string → '\n' ∉ t.literal.toList := by
    decide +kernel
  have hlines : Text.splitLines text.toList =
      ["a !".toList, "= \"(\"".toList, [], "  \"b".toList] := by decide
  obtain ⟨-, hline⟩ := lines_are_read_alone hends
  rw [hlines] at hline
  refine ⟨hends, hlines, hline 1 _ rfl, (hline 3 _ rfl).trans ?_⟩
  decide +kernel

end Monkey
