import Monkey.Proofs.Token.Layout

/-!
# Texts in a row

A text is read from the front, and only the last lexeme of a text can run on into what is put
behind the text.  A semicolon never does.  So when a text ends with a semicolon, apart from
blanks, a text behind it is read as it is read alone, at other places.

## Main results

* `Lexeme.text_induction` — every text is made of blanks and lexemes.
* `map_forget_tokens_at` — the tokens of a text are the same wherever it begins.
* `tokens_append` — the tokens of two texts in a row.
-/

namespace Monkey

namespace Lexeme

/-! ### What lexemes do not look at -/

/-- Of what follows, a symbol looks at one character. -/
theorem symbol_append (c d : Char) (cs ds : List Char) :
    symbol c (d :: (cs ++ ds)) = symbol c (d :: cs) := by
  unfold symbol
  split <;> split <;> simp_all

theorem takeWhile_append_of_lt {p : Char → Bool} {cs : List Char} (ds : List Char)
    (h : (cs.takeWhile p).length < cs.length) : (cs ++ ds).takeWhile p = cs.takeWhile p := by
  rw [List.takeWhile_append, if_neg (Nat.ne_of_lt h)]

/-- A string that is closed before the text ends does not look behind its end. -/
theorem quoted_append {cs : List Char} (ds : List Char)
    (h : (quoted cs).spelling.length ≤ cs.length) : quoted (cs ++ ds) = quoted cs := by
  have hsplit : (cs.takeWhile (· ≠ '"')).length + (cs.dropWhile (· ≠ '"')).length = cs.length := by
    rw [← List.length_append, List.takeWhile_append_dropWhile]
  have hclosed : 0 < (cs.dropWhile (· ≠ '"')).length := by
    rw [quoted] at h
    simp only [List.length_cons, List.length_append, List.length_take] at h
    omega
  have hnonempty : ¬ (cs.dropWhile (· ≠ '"')).isEmpty = true := by
    rw [List.isEmpty_iff]
    exact List.ne_nil_of_length_pos hclosed
  rw [quoted, quoted, takeWhile_append_of_lt ds (by omega), List.dropWhile_append,
    if_neg hnonempty, List.take_append_of_le_length hclosed]

/-- A lexeme that ends before the text does is read in front of anything that is put behind the
text. -/
theorem first_append {c : Char} {cs : List Char} (ds : List Char)
    (h : (first c cs).spelling.length ≤ cs.length) : first c (cs ++ ds) = first c cs := by
  unfold first at h ⊢
  split at h
  · next hq =>
    rw [if_pos hq, if_pos hq]
    exact quoted_append ds h
  next hq =>
  rw [if_neg hq, if_neg hq]
  split at h
  · next hl => rw [if_pos hl, if_pos hl, takeWhile_append_of_lt ds h]
  next hl =>
  rw [if_neg hl, if_neg hl]
  split at h
  · next hd => rw [if_pos hd, if_pos hd, takeWhile_append_of_lt ds h]
  next hd =>
  rw [if_neg hd, if_neg hd]
  cases cs with
  | nil =>
    have hne : (symbol c []).spelling ≠ [] := by
      unfold symbol
      split <;> simp [plain]
    exact absurd (List.eq_nil_of_length_eq_zero (Nat.le_zero.mp h)) hne
  | cons d cs => exact symbol_append c d cs ds

theorem StandsBefore.append {l : Lexeme} {rest : List Char} (h : l.StandsBefore rest)
    (hr : rest ≠ []) (ds : List Char) : l.StandsBefore (rest ++ ds) := by
  obtain ⟨c, cs, hs, hc, hfirst⟩ := h
  refine ⟨c, cs, hs, hc, ?_⟩
  have hpos : 0 < rest.length := List.length_pos_iff.mpr hr
  have hle : (first c (cs ++ rest)).spelling.length ≤ (cs ++ rest).length := by
    rw [hfirst, hs, List.length_cons, List.length_append]
    omega
  rw [← List.append_assoc, first_append ds hle, hfirst]

theorem ofWord_ne_semicolon (word : String) : Token.Kind.ofWord word ≠ .semicolon := by
  unfold Token.Kind.ofWord
  repeat' split
  all_goals decide

/-- Only the semicolon is read as one. -/
theorem eq_of_kind_first {c : Char} {cs : List Char} (h : (first c cs).kind = .semicolon) :
    c = ';' := by
  unfold first at h
  split at h
  · contradiction
  split at h
  · exact absurd h (ofWord_ne_semicolon _)
  split at h
  · contradiction
  · unfold symbol at h
    split at h
    · contradiction
    · contradiction
    · simp only [plain, Token.Kind.ofChar?] at h
      split at h <;> first | rfl | contradiction

/-- A semicolon stands before everything. -/
theorem StandsBefore.of_semicolon {l : Lexeme} {rest : List Char} (h : l.StandsBefore rest)
    (hk : l.kind = .semicolon) (ds : List Char) : l.StandsBefore ds := by
  obtain ⟨c, cs, hs, -, rfl⟩ := h
  obtain rfl := eq_of_kind_first hk
  exact standsBefore_symbol (c := ';') rfl (by decide) (by decide) ds

/-! ### Texts are made of blanks and lexemes -/

/-- Induction along a text: it is empty, or it begins with a blank or with a lexeme. -/
@[elab_as_elim]
theorem text_induction {motive : List Char → Prop} (nil : motive [])
    (blank : ∀ c cs, Token.isBlank c → motive cs → motive (c :: cs))
    (lexeme : ∀ (l : Lexeme) rest, l.StandsBefore rest → motive rest →
      motive (l.spelling ++ rest)) (cs : List Char) : motive cs := by
  induction hn : cs.length using Nat.strongRecOn generalizing cs with
  | ind n ih =>
    cases cs with
    | nil => exact nil
    | cons c cs =>
      by_cases hc : Token.isBlank c
      · exact blank c cs hc (ih _ (hn ▸ Nat.lt_succ_self _) cs rfl)
      · obtain ⟨rest, hrest⟩ := isPrefix_first c cs
        -- the spelling of the first lexeme is the first character and more
        obtain ⟨d, ds, hs⟩ := List.exists_cons_of_ne_nil (first_spelling_ne_nil c cs)
        rw [hs, List.cons_append, List.cons.injEq] at hrest
        obtain ⟨rfl, rfl⟩ := hrest
        have stands : (first d (ds ++ rest)).StandsBefore rest :=
          ⟨d, ds, hs, Bool.eq_false_iff.mpr hc, rfl⟩
        have shorter : rest.length < n := by
          rw [← hn, List.length_cons, List.length_append]
          omega
        rw [← List.cons_append, ← hs]
        exact lexeme _ rest stands (ih _ shorter rest rfl)

end Lexeme

/-! ### Tokens -/

/-- The tokens of a text are the same wherever it begins, apart from their places. -/
theorem map_forget_tokens_at (cs : List Char) (p q : Place) :
    (⟨p, cs⟩ : Scanner).tokens.map Relocation.forget.move =
      (⟨q, cs⟩ : Scanner).tokens.map Relocation.forget.move := by
  induction cs using Lexeme.text_induction generalizing p q with
  | nil => rw [Scanner.tokens_nil, Scanner.tokens_nil]
  | blank c cs hc ih =>
    rw [Scanner.tokens_blank hc, Scanner.tokens_blank hc]
    exact ih _ _
  | lexeme l rest h ih =>
    rw [Scanner.tokens_lexeme h, Scanner.tokens_lexeme h, List.map_cons, List.map_cons,
      Lexeme.forget_token, Lexeme.forget_token, ih]

/-- No token but a semicolon comes last. -/
def EndsWithSemicolon (ts : List Token) : Prop := ∀ t ∈ ts.getLast?, t.kind = .semicolon

instance (ts : List Token) : Decidable (EndsWithSemicolon ts) :=
  inferInstanceAs (Decidable (∀ t ∈ ts.getLast?, t.kind = .semicolon))

theorem EndsWithSemicolon.suffix {ts ts' : List Token} (h : EndsWithSemicolon ts)
    (hs : ts' <:+ ts) : EndsWithSemicolon ts' := by
  obtain ⟨us, rfl⟩ := hs
  intro t ht
  refine h t ?_
  rw [List.getLast?_append, ht]
  rfl

theorem Scanner.tokens_append {cs : List Char} {p : Place}
    (h : EndsWithSemicolon (⟨p, cs⟩ : Scanner).tokens) (ds : List Char) :
    (⟨p, cs ++ ds⟩ : Scanner).tokens =
      (⟨p, cs⟩ : Scanner).tokens ++ (⟨p.afterAll cs, ds⟩ : Scanner).tokens := by
  induction cs using Lexeme.text_induction generalizing p with
  | nil => rw [tokens_nil, List.nil_append, List.nil_append, Place.afterAll_nil]
  | blank c cs hc ih =>
    rw [tokens_blank hc] at h
    rw [List.cons_append, tokens_blank hc, tokens_blank hc, ih h, Place.afterAll_cons]
  | lexeme l rest hl ih =>
    rw [tokens_lexeme hl] at h
    -- the lexeme is followed by something that it does not run on with, or it is a semicolon
    have stands : l.StandsBefore (rest ++ ds) := by
      by_cases hr : rest = []
      · subst hr
        rw [tokens_nil] at h
        exact hl.of_semicolon (h _ rfl) _
      · exact hl.append hr ds
    have others := ih (h.suffix (List.suffix_cons _ _))
    rw [List.append_assoc, tokens_lexeme stands, tokens_lexeme hl, others, List.cons_append,
      Place.afterAll_append]

/-- **Texts in a row.**  Behind a text that ends with a semicolon a text is read as it is alone,
apart from the places of its tokens. -/
theorem tokens_append {text : String} (h : EndsWithSemicolon (tokens text)) (text' : String) :
    ∃ ts, tokens (text ++ text') = tokens text ++ ts ∧
      ts.map Relocation.forget.move = (tokens text').map Relocation.forget.move := by
  refine ⟨(⟨Place.start.afterAll text.toList, text'.toList⟩ : Scanner).tokens, ?_, ?_⟩
  · rw [tokens, Scanner.ofText, String.toList_append]
    exact Scanner.tokens_append h text'.toList
  · exact map_forget_tokens_at _ _ _

end Monkey
