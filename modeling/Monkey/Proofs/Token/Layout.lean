import Monkey.Proofs.Syntax.Relocate

/-!
# Texts that are laid out

A text that is put together from lexemes and blanks is read as those lexemes, when each of
them stands in front of something that does not run on with it.  Whether it does is decided
by what follows at once, so pieces are put together from the right.

## Main definitions

* `Piece`, `Piece.render` — lexemes and blanks, and the text that they make.
* `Lexeme.StandsBefore` — a lexeme is read as itself in front of some text.
* `Readable` — every lexeme of a layout stands before what follows it.
* `Relocation.forget` — forgets the places of tokens.

## Main results

* `standsBefore_word`, `standsBefore_digits`, `standsBefore_symbol` — where the lexemes stand.
* `map_forget_tokens` — a readable layout is read as its lexemes.
-/

namespace Monkey

/-- Puts every token at no place at all. -/
def Relocation.forget : Relocation :=
  ⟨fun t => ⟨t.kind, t.literal, 0, 0⟩, fun _ => rfl, fun _ => rfl⟩

/-- The token of a lexeme at no place at all. -/
def Lexeme.unplaced (l : Lexeme) : Token := l.token ⟨0, 0, 0⟩

theorem Lexeme.forget_token (l : Lexeme) (p : Place) :
    Relocation.forget.move (l.token p) = l.unplaced := rfl

/-- A piece of a text: a lexeme, or a blank that separates lexemes. -/
inductive Piece
  | lexeme (l : Lexeme)
  | blank (c : Char)
  deriving DecidableEq, Repr

namespace Piece

/-- The characters of a piece. -/
@[simp] def chars : Piece → List Char
  | lexeme l => l.spelling
  | blank c => [c]

/-- The characters of some pieces. -/
def render (ps : List Piece) : List Char := ps.flatMap chars

/-- The lexeme of a piece, if it is one. -/
@[simp] def lexeme? : Piece → Option Lexeme
  | lexeme l => some l
  | blank _ => none

/-- The tokens of some pieces, at no place at all. -/
def row (ps : List Piece) : List Token := (ps.filterMap lexeme?).map Lexeme.unplaced

@[simp] theorem render_nil : render [] = [] := rfl

@[simp] theorem render_cons (p : Piece) (ps : List Piece) :
    render (p :: ps) = p.chars ++ render ps := rfl

@[simp] theorem render_append (ps qs : List Piece) :
    render (ps ++ qs) = render ps ++ render qs := List.flatMap_append

@[simp] theorem row_nil : row [] = [] := rfl

@[simp] theorem row_lexeme (l : Lexeme) (ps : List Piece) :
    row (lexeme l :: ps) = l.unplaced :: row ps := rfl

@[simp] theorem row_blank (c : Char) (ps : List Piece) : row (blank c :: ps) = row ps := rfl

@[simp] theorem row_append (ps qs : List Piece) : row (ps ++ qs) = row ps ++ row qs := by
  rw [row, List.filterMap_append, List.map_append]
  rfl

end Piece

/-! ### Where lexemes stand -/

namespace Lexeme

/-- The lexeme is the one that is read at the front of its spelling and of `rest` behind
it. -/
def StandsBefore (l : Lexeme) (rest : List Char) : Prop :=
  ∃ c cs, l.spelling = c :: cs ∧ Token.isBlank c = false ∧ first c (cs ++ rest) = l

/-- Some text does not begin with a character that satisfies `p`. -/
def Apart (p : Char → Bool) (rest : List Char) : Prop := ∀ c ∈ rest.head?, p c = false

theorem takeWhile_append_of_apart {p : Char → Bool} {cs rest : List Char}
    (hcs : ∀ c ∈ cs, p c) (hr : Apart p rest) : (cs ++ rest).takeWhile p = cs := by
  rw [List.takeWhile_append_of_pos hcs]
  cases rest with
  | nil => exact List.append_nil cs
  | cons c rest =>
    rw [List.takeWhile_cons_of_neg (by rw [hr c rfl]; exact Bool.false_ne_true), List.append_nil]

theorem not_isBlank_of_isWordPart {c : Char} (h : Token.isWordPart c) :
    Token.isBlank c = false := by
  rw [Bool.eq_false_iff]
  intro hb
  simp only [Token.isBlank, Bool.or_eq_true, decide_eq_true_eq] at hb
  rcases hb with ((rfl | rfl) | rfl) | rfl <;> revert h <;> decide

theorem ne_quote_of_isWordPart {c : Char} (h : Token.isWordPart c) : c ≠ '"' := by
  rintro rfl
  revert h
  decide

theorem not_isLetter_of_isDigit {c : Char} (h : Token.isDigit c) : Token.isLetter c = false := by
  rw [Bool.eq_false_iff]
  intro hl
  simp only [Token.isDigit, Token.isLetter, Bool.and_eq_true, Bool.or_eq_true, decide_eq_true_eq,
    Char.le_def, UInt32.le_iff_toNat_le] at h hl
  have bounds : '9'.val.toNat < 'A'.val.toNat ∧ '9'.val.toNat < 'a'.val.toNat := by decide
  rcases hl with (⟨hl, -⟩ | ⟨hl, -⟩) | rfl
  · omega
  · omega
  · exact absurd h.2 (by decide)

/-- A word stands before everything that is no part of a word. -/
theorem standsBefore_word {c : Char} {cs rest : List Char} (hc : Token.isLetter c)
    (hcs : ∀ d ∈ cs, Token.isWordPart d) (hr : Apart Token.isWordPart rest) :
    (plain (Token.Kind.ofWord (String.ofList (c :: cs))) (c :: cs)).StandsBefore rest := by
  have part : Token.isWordPart c := by rw [Token.isWordPart, hc, Bool.true_or]
  refine ⟨c, cs, rfl, not_isBlank_of_isWordPart part, ?_⟩
  unfold first
  rw [if_neg (ne_quote_of_isWordPart part), if_pos hc, takeWhile_append_of_apart hcs hr]

/-- A number stands before everything that is no digit. -/
theorem standsBefore_digits {c : Char} {cs rest : List Char} (hc : Token.isDigit c)
    (hcs : ∀ d ∈ cs, Token.isDigit d) (hr : Apart Token.isDigit rest) :
    (plain .int (c :: cs)).StandsBefore rest := by
  have part : Token.isWordPart c := by rw [Token.isWordPart, hc, Bool.or_true]
  refine ⟨c, cs, rfl, not_isBlank_of_isWordPart part, ?_⟩
  -- a digit begins neither a string nor a word
  unfold first
  rw [if_neg (ne_quote_of_isWordPart part),
    if_neg (by rw [not_isLetter_of_isDigit hc]; exact Bool.false_ne_true), if_pos hc,
    takeWhile_append_of_apart hcs hr]

/-- The operators and delimiters of one character that begin none of two. -/
theorem standsBefore_symbol {c : Char} {kind : Token.Kind} (hk : Token.Kind.ofChar? c = some kind)
    (ha : c ≠ '=') (hb : c ≠ '!') (rest : List Char) : (plain kind [c]).StandsBefore rest := by
  unfold Token.Kind.ofChar? at hk
  split at hk <;> cases hk
  -- the two symbols to which a second character may belong are left out
  case h_1 => contradiction
  case h_4 => contradiction
  all_goals exact ⟨_, [], rfl, rfl, rfl⟩

theorem standsBefore_bang {rest : List Char} (hr : Apart (· = '=') rest) :
    (plain .bang ['!']).StandsBefore rest := by
  refine ⟨'!', [], rfl, rfl, ?_⟩
  cases rest with
  | nil => rfl
  | cons d rest =>
    have hd : d ≠ '=' := by simpa using hr d rfl
    have hs : symbol '!' (d :: rest) = plain .bang ['!'] := by
      unfold symbol
      split
      · contradiction
      · next heq => exact absurd (List.cons.inj heq).1 hd
      · rfl
    exact hs

theorem standsBefore_eq (rest : List Char) : (plain .eq ['=', '=']).StandsBefore rest :=
  ⟨'=', ['='], rfl, rfl, rfl⟩

theorem standsBefore_notEq (rest : List Char) : (plain .notEq ['!', '=']).StandsBefore rest :=
  ⟨'!', ['='], rfl, rfl, rfl⟩

end Lexeme

/-! ### Reading a layout -/

namespace Scanner

/-- The tokens of a text, one by one. -/
theorem tokens_eq (s : Scanner) :
    s.tokens = match s.next? with
      | none => []
      | some (t, s') => t :: s'.tokens := by
  rw [tokens]
  split <;> rename_i h <;> rw [h]

/-- A blank in front is skipped. -/
theorem skipBlanks_blank {c : Char} (hc : Token.isBlank c) (p : Place) (cs : List Char) :
    (⟨p, c :: cs⟩ : Scanner).skipBlanks = (⟨p.after c, cs⟩ : Scanner).skipBlanks := by
  simp only [skipBlanks, skip, List.takeWhile_cons_of_pos hc, List.length_cons,
    List.take_succ_cons, List.drop_succ_cons, Place.afterAll_cons]

theorem tokens_blank {c : Char} (hc : Token.isBlank c) (p : Place) (cs : List Char) :
    (⟨p, c :: cs⟩ : Scanner).tokens = (⟨p.after c, cs⟩ : Scanner).tokens := by
  rw [tokens_eq, tokens_eq, next?, next?, skipBlanks_blank hc]

/-- In front of a lexeme there is no blank to skip. -/
theorem skipBlanks_of_standsBefore {l : Lexeme} {rest : List Char} (h : l.StandsBefore rest)
    (p : Place) :
    (⟨p, l.spelling ++ rest⟩ : Scanner).skipBlanks = ⟨p, l.spelling ++ rest⟩ := by
  obtain ⟨c, cs, hs, hc, -⟩ := h
  have none_in_front : (c :: (cs ++ rest)).takeWhile Token.isBlank = [] :=
    List.takeWhile_cons_of_neg (Bool.eq_false_iff.mp hc)
  rw [hs, List.cons_append]
  simp only [skipBlanks, skip, none_in_front, List.length_nil, List.take_zero, List.drop_zero,
    Place.afterAll_nil]

/-- A lexeme that stands before the rest is the next one. -/
theorem next?_of_standsBefore {l : Lexeme} {rest : List Char} (h : l.StandsBefore rest)
    (p : Place) : (⟨p, l.spelling ++ rest⟩ : Scanner).next? =
      some (l.token p, ⟨p.afterAll l.spelling, rest⟩) := by
  have hskip := skipBlanks_of_standsBefore h p
  obtain ⟨c, cs, hs, -, hfirst⟩ := h
  -- as many characters as the spelling has are taken off, and they are the spelling
  have hrest : l.spelling ++ rest = c :: (cs ++ rest) := by
    rw [hs, List.cons_append]
  rw [next?, hskip]
  simp only [hrest, hfirst]
  rw [skip, ← hrest, List.take_left, List.drop_left]

theorem tokens_lexeme {l : Lexeme} {rest : List Char} (h : l.StandsBefore rest)
    (p : Place) : (⟨p, l.spelling ++ rest⟩ : Scanner).tokens =
      l.token p :: (⟨p.afterAll l.spelling, rest⟩ : Scanner).tokens := by
  rw [tokens_eq, next?_of_standsBefore h]

theorem tokens_nil (p : Place) : (⟨p, []⟩ : Scanner).tokens = [] := by
  rw [tokens_eq]
  rfl

end Scanner

/-- Every lexeme of a layout stands before what follows it, and the blanks are blanks. -/
def Readable : List Piece → Prop
  | [] => True
  | .lexeme l :: ps => l.StandsBefore (Piece.render ps) ∧ Readable ps
  | .blank c :: ps => Token.isBlank c ∧ Readable ps

/-- A readable layout is read as its lexemes, wherever it begins. -/
theorem map_forget_tokens_scanner {ps : List Piece} (h : Readable ps) (p : Place) :
    (⟨p, Piece.render ps⟩ : Scanner).tokens.map Relocation.forget.move = Piece.row ps := by
  -- the place moves along, and the tokens do not depend on it once they forget it
  induction ps generalizing p with
  | nil => rw [Piece.render_nil, Scanner.tokens_nil, Piece.row_nil, List.map_nil]
  | cons piece ps ih =>
    cases piece with
    | lexeme l =>
      rw [Piece.render_cons, Piece.chars, Scanner.tokens_lexeme h.1, List.map_cons, ih h.2,
        Lexeme.forget_token, Piece.row_lexeme]
    | blank c =>
      rw [Piece.render_cons, Piece.chars, List.singleton_append, Scanner.tokens_blank h.1, ih h.2,
        Piece.row_blank]

/-- A readable layout is read as its lexemes. -/
theorem map_forget_tokens {ps : List Piece} (h : Readable ps) :
    (tokens (String.ofList (Piece.render ps))).map Relocation.forget.move = Piece.row ps := by
  rw [tokens, Scanner.ofText, String.toList_ofList]
  exact map_forget_tokens_scanner h .start

end Monkey
