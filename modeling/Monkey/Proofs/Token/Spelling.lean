import Monkey.Proofs.Token.Seam

/-!
# Spelling tokens

A row of tokens that stand in texts can be written down again: each of them with a blank behind
it, and a string with its closing quote even where it had none.  And the tokens of one text stand
at increasing places, so each of them is at one place in the row.

## Main definitions

* `Token.Spellable` — a token at no place that can be written in front of a blank.
* `Place.spot`, `Token.spot`, `Earlier` — lines with columns, and their order.

## Main results

* `spellable_of_mem_tokens` — the tokens of a text can be spelled.
* `exists_text_of_spellable` — tokens that can be spelled are the tokens of a text.
* `nodup_tokenize` — no token of a text stands there twice.
* `tokens_eq_takeWhile` — the end is the only token of its kind.
-/

namespace Monkey

/-! ### Spelling -/

/-- A lexeme in front of a blank is read as this token, apart from its place. -/
def Token.Spellable (t : Token) : Prop :=
  ∃ l : Lexeme, l.unplaced = t ∧ ∀ rest, l.StandsBefore (' ' :: rest)

namespace Lexeme

theorem apart_blank {p : Char → Bool} (hp : p ' ' = false) (rest : List Char) :
    Apart p (' ' :: rest) := by
  rintro c ⟨⟩
  exact hp

/-- A string that is closed stands before everything. -/
theorem standsBefore_closed {content : List Char} (h : ∀ c ∈ content, decide (c ≠ '"') = true)
    (rest : List Char) :
    (⟨.string, content, '"' :: (content ++ ['"'])⟩ : Lexeme).StandsBefore rest := by
  refine ⟨'"', content ++ ['"'], rfl, rfl, ?_⟩
  rw [first, if_pos rfl, quoted, List.append_assoc, List.takeWhile_append_of_pos h,
    List.dropWhile_append_of_pos h]
  simp

/-- A symbol in front of a blank has one character. -/
theorem symbol_blank (c : Char) (rest : List Char) :
    symbol c (' ' :: rest) = plain ((Token.Kind.ofChar? c).getD .illegal) [c] := by
  unfold symbol
  split
  · next heq => exact absurd (List.cons.inj heq).1 (by decide)
  · next heq => exact absurd (List.cons.inj heq).1 (by decide)
  · rfl

/-- The token of what is read somewhere can be spelled. -/
theorem StandsBefore.spellable {l : Lexeme} {rest : List Char} (h : l.StandsBefore rest) :
    l.unplaced.Spellable := by
  obtain ⟨c, cs, hs, hc, hl⟩ := h
  unfold first at hl
  split at hl
  · -- a string may have been closed by the end of the text, which its token does not show
    subst hl
    let content := (cs ++ rest).takeWhile (· ≠ '"')
    exact ⟨⟨.string, content, '"' :: (content ++ ['"'])⟩, rfl, fun rest' =>
      standsBefore_closed (List.all_eq_true.mp List.all_takeWhile) (' ' :: rest')⟩
  split at hl
  · next hletter =>
    subst hl
    exact ⟨_, rfl, fun rest' => standsBefore_word hletter
      (List.all_eq_true.mp List.all_takeWhile) (apart_blank rfl rest')⟩
  split at hl
  · next hdigit =>
    subst hl
    exact ⟨_, rfl, fun rest' => standsBefore_digits hdigit
      (List.all_eq_true.mp List.all_takeWhile) (apart_blank rfl rest')⟩
  next hquote hletter hdigit =>
  unfold symbol at hl
  split at hl
  · exact ⟨_, congrArg unplaced hl, fun rest' => standsBefore_eq _⟩
  · exact ⟨_, congrArg unplaced hl, fun rest' => standsBefore_notEq _⟩
  · refine ⟨_, congrArg unplaced hl, fun rest' => ⟨_, [], rfl, hc, ?_⟩⟩
    rw [List.nil_append, first, if_neg hquote, if_neg hletter, if_neg hdigit, symbol_blank]

/-- Nothing is read as the end. -/
theorem kind_first_ne_eof (c : Char) (cs : List Char) : (first c cs).kind ≠ .eof := by
  unfold first
  split
  · exact Token.Kind.noConfusion
  split
  · simp only [plain, Token.Kind.ofWord]
    repeat' split
    all_goals decide
  split
  · exact Token.Kind.noConfusion
  · unfold symbol
    split
    · exact Token.Kind.noConfusion
    · exact Token.Kind.noConfusion
    · simp only [plain, Token.Kind.ofChar?]
      split <;> decide

theorem StandsBefore.kind_ne_eof {l : Lexeme} {rest : List Char} (h : l.StandsBefore rest) :
    l.kind ≠ .eof := by
  obtain ⟨c, cs, -, -, rfl⟩ := h
  exact kind_first_ne_eof c _

end Lexeme

/-- Every token of a text is that of a lexeme which stands in the text. -/
theorem exists_lexeme_of_mem_tokens (cs : List Char) (p : Place) {t : Token}
    (h : t ∈ (⟨p, cs⟩ : Scanner).tokens) :
    ∃ (l : Lexeme) (q : Place) (rest : List Char), l.StandsBefore rest ∧ t = l.token q := by
  induction cs using Lexeme.text_induction generalizing p with
  | nil =>
    rw [Scanner.tokens_nil] at h
    cases h
  | blank c cs hc ih =>
    rw [Scanner.tokens_blank hc] at h
    exact ih _ h
  | lexeme l rest hl ih =>
    rw [Scanner.tokens_lexeme hl] at h
    rcases List.mem_cons.mp h with rfl | h
    · exact ⟨l, p, rest, hl, rfl⟩
    · exact ih _ h

theorem spellable_of_mem_tokens {text : String} {t : Token} (h : t ∈ tokens text) :
    (Relocation.forget.move t).Spellable := by
  obtain ⟨l, q, rest, hl, rfl⟩ := exists_lexeme_of_mem_tokens _ _ h
  exact hl.spellable

/-- Tokens that can be spelled are, with blanks in between, the tokens of a text. -/
theorem exists_text_of_spellable {ts : List Token} (h : ∀ t ∈ ts, t.Spellable) :
    ∃ text, (tokens text).map Relocation.forget.move = ts := by
  have layout : ∃ ps, Readable ps ∧ Piece.row ps = ts := by
    induction ts with
    | nil => exact ⟨[], trivial, rfl⟩
    | cons t ts ih =>
      obtain ⟨⟨l, rfl, hl⟩, hts⟩ := List.forall_mem_cons.mp h
      obtain ⟨ps, hps, rfl⟩ := ih hts
      exact ⟨.lexeme l :: .blank ' ' :: ps, ⟨hl _, rfl, hps⟩, rfl⟩
  obtain ⟨ps, hps, rfl⟩ := layout
  exact ⟨_, map_forget_tokens hps⟩

/-- The end is the only token of its kind, so it is known where the text ends. -/
theorem tokens_eq_takeWhile (text : String) :
    tokens text = (tokenize text).takeWhile fun t => decide (t.kind ≠ .eof) := by
  have hkinds : ∀ t ∈ tokens text, decide (t.kind ≠ .eof) = true := by
    intro t ht
    obtain ⟨l, q, rest, hl, rfl⟩ := exists_lexeme_of_mem_tokens _ _ ht
    exact decide_eq_true hl.kind_ne_eof
  have hend : [Scanner.endToken (Place.start.afterAll text.toList)].takeWhile
      (fun t => decide (t.kind ≠ .eof)) = [] := rfl
  rw [tokenize, List.takeWhile_append_of_pos hkinds, hend, List.append_nil]

/-! ### Places -/

/-- The line and the column of a place. -/
def Place.spot (p : Place) : Nat × Nat := (p.line, p.column)

/-- The line and the column of a token. -/
def Token.spot (t : Token) : Nat × Nat := (t.line, t.column)

/-- On an earlier line, or in front on the same one. -/
def Earlier (a b : Nat × Nat) : Prop := a.1 < b.1 ∨ a.1 = b.1 ∧ a.2 < b.2

theorem Earlier.trans {a b c : Nat × Nat} (h : Earlier a b) (h' : b = c ∨ Earlier b c) :
    Earlier a c := by
  rcases h' with rfl | h'
  · exact h
  · unfold Earlier at h h' ⊢
    omega

theorem Earlier.ne {a b : Nat × Nat} (h : Earlier a b) : a ≠ b := by
  rintro rfl
  unfold Earlier at h
  omega

theorem Place.earlier_after (p : Place) (c : Char) : Earlier p.spot (p.after c).spot := by
  unfold Place.after
  split
  · exact .inl (Nat.lt_succ_self _)
  · exact .inr ⟨rfl, Nat.lt_succ_self _⟩

theorem Place.earlier_afterAll (p : Place) {cs : List Char} (h : cs ≠ []) :
    Earlier p.spot (p.afterAll cs).spot := by
  induction cs generalizing p with
  | nil => contradiction
  | cons c cs ih =>
    rw [Place.afterAll_cons]
    refine (p.earlier_after c).trans ?_
    by_cases hcs : cs = []
    · exact .inl (by rw [hcs, Place.afterAll_nil])
    · exact .inr (ih _ hcs)

/-- The tokens of a text and the end stand at increasing places, none before the beginning. -/
theorem pairwise_earlier (cs : List Char) (p : Place) :
    ((⟨p, cs⟩ : Scanner).tokens ++ [Scanner.endToken (p.afterAll cs)]).Pairwise
        (fun t t' => Earlier t.spot t'.spot) ∧
      ∀ t ∈ (⟨p, cs⟩ : Scanner).tokens ++ [Scanner.endToken (p.afterAll cs)],
        p.spot = t.spot ∨ Earlier p.spot t.spot := by
  induction cs using Lexeme.text_induction generalizing p with
  | nil =>
    rw [Scanner.tokens_nil, List.nil_append]
    refine ⟨List.pairwise_singleton _ _, fun t ht => .inl ?_⟩
    rw [List.mem_singleton.mp ht]
    rfl
  | blank c cs hc ih =>
    rw [Scanner.tokens_blank hc, Place.afterAll_cons]
    exact ⟨(ih _).1, fun t ht => .inr ((p.earlier_after c).trans ((ih _).2 t ht))⟩
  | lexeme l rest hl ih =>
    have hspelling : l.spelling ≠ [] := by
      obtain ⟨c, cs, hs, -⟩ := hl
      rw [hs]
      exact List.cons_ne_nil c cs
    have hbehind : ∀ t ∈ (⟨p.afterAll l.spelling, rest⟩ : Scanner).tokens ++
        [Scanner.endToken ((p.afterAll l.spelling).afterAll rest)], Earlier p.spot t.spot :=
      fun t ht => (p.earlier_afterAll hspelling).trans ((ih _).2 t ht)
    rw [Scanner.tokens_lexeme hl, Place.afterAll_append, List.cons_append]
    refine ⟨List.pairwise_cons.mpr ⟨hbehind, (ih _).1⟩, fun t ht => ?_⟩
    rcases List.mem_cons.mp ht with rfl | ht
    · exact .inl rfl
    · exact .inr (hbehind t ht)

/-- No token of a text stands there twice. -/
theorem nodup_tokenize (text : String) : (tokenize text).Nodup := by
  refine List.Pairwise.imp (fun h heq => ?_) (pairwise_earlier text.toList .start).1
  exact h.ne (congrArg Token.spot heq)

end Monkey
