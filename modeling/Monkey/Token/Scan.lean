import Monkey.Token.Basic

/-!
# From text to tokens

Reading a text from left to right: blanks are skipped, and what follows is cut
into lexemes, each as long as it can be.  A string has no escapes and may run to
the end of the text.  Every character is part of some lexeme, so reading never
fails; a character that starts no token is an `illegal` one.

## Main definitions

* `Place` — an offset, a line and a column.
* `Lexeme.first c cs` — the lexeme at the front of `c :: cs`.
* `Scanner.next?`, `Scanner.next` — one token and the scanner after it.
* `tokens`, `tokenize` — the tokens of a text, without and with the end.

## Main results

* `Lexeme.isPrefix_first` — a lexeme is spelled by the front of the text.
* `Scanner.length_rest_lt` — reading a token leaves a shorter text.
-/

namespace Monkey

/-! ### Places -/

/-- A place in a text: how many characters stand before it, and its line and
column, counted from 1. -/
structure Place where
  offset : Nat
  line : Nat
  column : Nat
  deriving DecidableEq, Repr, Inhabited

namespace Place

/-- Where a text begins. -/
def start : Place := ⟨0, 1, 1⟩

/-- The place behind a character: a line feed begins a new line. -/
def after (p : Place) (c : Char) : Place :=
  if c = '\n' then ⟨p.offset + 1, p.line + 1, 1⟩
  else ⟨p.offset + 1, p.line, p.column + 1⟩

/-- The place behind some characters. -/
def afterAll (p : Place) (cs : List Char) : Place :=
  cs.foldl after p

@[simp] theorem afterAll_nil (p : Place) : p.afterAll [] = p := rfl

@[simp] theorem afterAll_cons (p : Place) (c : Char) (cs : List Char) :
    p.afterAll (c :: cs) = (p.after c).afterAll cs := rfl

@[simp] theorem afterAll_append (p : Place) (cs ds : List Char) :
    p.afterAll (cs ++ ds) = (p.afterAll cs).afterAll ds := by
  simp [afterAll]

@[simp] theorem after_line_feed (p : Place) :
    p.after '\n' = ⟨p.offset + 1, p.line + 1, 1⟩ := rfl

theorem after_of_ne {c : Char} (h : c ≠ '\n') (p : Place) :
    p.after c = ⟨p.offset + 1, p.line, p.column + 1⟩ := by
  simp [after, h]

end Place

/-! ### Lexemes -/

/-- A lexeme: the characters that spell it, and the literal text of its token.
The two differ for strings only, whose quotes are no part of the literal. -/
structure Lexeme where
  kind : Token.Kind
  literal : List Char
  spelling : List Char
  deriving DecidableEq, Repr

namespace Lexeme

open Token

/-- A lexeme whose literal is its spelling. -/
def plain (kind : Kind) (spelling : List Char) : Lexeme :=
  ⟨kind, spelling, spelling⟩

/-- A string literal: the quote has been read, and `cs` follows it.  It ends with
the next quote or with the text. -/
def quoted (cs : List Char) : Lexeme :=
  let content := cs.takeWhile (· ≠ '"')
  ⟨.string, content, '"' :: (content ++ (cs.dropWhile (· ≠ '"')).take 1)⟩

/-- An operator or delimiter of two characters or of one, or an illegal
character. -/
def symbol : Char → List Char → Lexeme
  | '=', '=' :: _ => plain .eq ['=', '=']
  | '!', '=' :: _ => plain .notEq ['!', '=']
  | c, _ => plain ((Kind.ofChar? c).getD .illegal) [c]

/-- The lexeme at the front of `c :: cs`, where `c` is no blank. -/
def first (c : Char) (cs : List Char) : Lexeme :=
  if c = '"' then quoted cs
  else if isLetter c then
    let word := c :: cs.takeWhile isWordPart
    plain (Kind.ofWord (String.ofList word)) word
  else if isDigit c then plain .int (c :: cs.takeWhile isDigit)
  else symbol c cs

/-- The token that a lexeme makes at a place. -/
def token (l : Lexeme) (p : Place) : Token :=
  ⟨l.kind, String.ofList l.literal, p.line, p.column⟩

theorem isPrefix_cons_takeWhile (c : Char) (cs : List Char) (p : Char → Bool) :
    c :: cs.takeWhile p <+: c :: cs :=
  List.cons_prefix_cons.mpr ⟨rfl, List.takeWhile_prefix p⟩

theorem isPrefix_quoted (cs : List Char) : (quoted cs).spelling <+: '"' :: cs := by
  refine List.cons_prefix_cons.mpr ⟨rfl, (cs.dropWhile (· ≠ '"')).drop 1, ?_⟩
  rw [List.append_assoc, List.take_append_drop, List.takeWhile_append_dropWhile]

theorem isPrefix_symbol (c : Char) (cs : List Char) :
    (symbol c cs).spelling <+: c :: cs := by
  unfold symbol
  split <;> simp [plain]

/-- A lexeme is spelled by the front of the text. -/
theorem isPrefix_first (c : Char) (cs : List Char) :
    (first c cs).spelling <+: c :: cs := by
  unfold first
  split
  · next h => exact h ▸ isPrefix_quoted cs
  · split
    · exact isPrefix_cons_takeWhile c cs _
    · split
      · exact isPrefix_cons_takeWhile c cs _
      · exact isPrefix_symbol c cs

/-- A lexeme has at least one character. -/
theorem first_spelling_ne_nil (c : Char) (cs : List Char) :
    (first c cs).spelling ≠ [] := by
  unfold first
  split
  · simp [quoted]
  · split
    · simp [plain]
    · split
      · simp [plain]
      · unfold symbol
        split <;> simp [plain]

end Lexeme

/-! ### Scanning -/

/-- A text that is being read: what is left of it, and where that begins. -/
structure Scanner where
  place : Place
  rest : List Char
  deriving DecidableEq, Repr

namespace Scanner

/-- The scanner at the start of a text. -/
def ofText (text : String) : Scanner :=
  ⟨.start, text.toList⟩

/-- Goes over `n` characters. -/
def skip (n : Nat) (s : Scanner) : Scanner :=
  ⟨s.place.afterAll (s.rest.take n), s.rest.drop n⟩

/-- Goes over the blanks in front. -/
def skipBlanks (s : Scanner) : Scanner :=
  s.skip (s.rest.takeWhile Token.isBlank).length

/-- The next token and the scanner behind it, if any token is left. -/
def next? (s : Scanner) : Option (Token × Scanner) :=
  match s.skipBlanks.rest with
  | [] => none
  | c :: cs =>
    let lexeme := Lexeme.first c cs
    some (lexeme.token s.skipBlanks.place, s.skipBlanks.skip lexeme.spelling.length)

/-- The token that stands for the end, at a place. -/
def endToken (p : Place) : Token :=
  ⟨.eof, "", p.line, p.column⟩

/-- The next token and the scanner behind it.  At the end that is the end token,
again and again. -/
def next (s : Scanner) : Token × Scanner :=
  s.next?.getD (endToken s.skipBlanks.place, s.skipBlanks)

theorem length_rest_skip_le (n : Nat) (s : Scanner) :
    (s.skip n).rest.length ≤ s.rest.length := by
  simp [skip]

/-- Reading a token leaves a shorter text. -/
theorem length_rest_lt {s s' : Scanner} {t : Token} (h : s.next? = some (t, s')) :
    s'.rest.length < s.rest.length := by
  unfold next? at h
  split at h
  · contradiction
  · next c cs hs =>
    simp only [Option.some.injEq, Prod.mk.injEq] at h
    obtain ⟨-, rfl⟩ := h
    have blanks : s.skipBlanks.rest.length ≤ s.rest.length := length_rest_skip_le _ s
    have pos : 0 < (Lexeme.first c cs).spelling.length :=
      List.length_pos_iff.mpr (Lexeme.first_spelling_ne_nil c cs)
    have nonempty : 0 < s.skipBlanks.rest.length := by simp [hs]
    simp only [skip, List.length_drop] at *
    omega

/-- The tokens that are left, without the end. -/
def tokens (s : Scanner) : List Token :=
  match _h : s.next? with
  | none => []
  | some (t, s') => t :: s'.tokens
termination_by s.rest.length
decreasing_by exact length_rest_lt (by assumption)

end Scanner

/-- The tokens of a text, without the end. -/
def tokens (text : String) : List Token :=
  (Scanner.ofText text).tokens

/-- The tokens of a text, with the end as the last one. -/
def tokenize (text : String) : List Token :=
  tokens text ++ [Scanner.endToken (Place.start.afterAll text.toList)]

end Monkey
