import Mathlib.Data.List.Induction
import Monkey.Proofs.Token.Rendering

/-!
# The spans of tokens

Reading takes a text apart: each call of the scanner goes over the blanks in front and over one
token, and between and behind the tokens there are blanks only.  The scanner moves its line and
its column on at every character, and they always are what counting the line feeds gives.

Reading begins somewhere in a text of which a part has been read already, so what is proved along
a text is about the spans from some offset on.

## Main definitions

* `lineAt`, `columnAt` — line and column of an offset, by counting.
* `Scanner.behind`, `Scanner.span` — the scanner behind some calls, and the span of one call.
* `Scanner.spans` — the spans of the tokens that are left.
* `Span.StandsIn`, `Covers` — a token stands on its span, and spans cover a text.

## Main results

* `Place.afterAll_start` — the place behind some characters, by counting.
* `Lexeme.StandsBefore.isSpelled`, `Lexeme.StandsBefore.goesOnWith` — how a token is spelled, and
  that what follows does not go on with it.
* `Lexeme.StandsBefore.wellFormed_or_unclosed` — only a string that the text ends is a lexeme of no
  table.
* `spans_cover_text` — the spans of the calls cover a text.
-/

namespace Monkey

/-! ### Places by counting -/

/-- The line of an offset: 1 and the number of line feeds in front. -/
def lineAt (text : List Char) (offset : Nat) : Nat :=
  1 + (text.take offset).count '\n'

/-- The column of an offset: 1 and the number of characters since the last line feed. -/
def columnAt (text : List Char) (offset : Nat) : Nat :=
  1 + ((text.take offset).reverse.takeWhile (· ≠ '\n')).length

/-- The place behind some characters, by counting, whatever follows them. -/
theorem Place.afterAll_start (cs ds : List Char) :
    start.afterAll cs =
      ⟨cs.length, lineAt (cs ++ ds) cs.length, columnAt (cs ++ ds) cs.length⟩ := by
  unfold lineAt columnAt
  rw [List.take_left]
  induction cs using List.reverseRecOn with
  | nil => rfl
  | append_singleton cs c ih =>
    rw [afterAll_append, ih, afterAll_cons, afterAll_nil, List.reverse_append,
      List.reverse_singleton, List.singleton_append, List.count_append, List.length_append]
    by_cases hc : c = '\n'
    · subst hc
      rfl
    · have hcount : [c].count '\n' = 0 := List.count_singleton.trans (if_neg (by simpa using hc))
      have htake : (c :: cs.reverse).takeWhile (· ≠ '\n') = c :: cs.reverse.takeWhile (· ≠ '\n') :=
        List.takeWhile_cons_of_pos (decide_eq_true hc)
      rw [after_of_ne hc, hcount, htake]
      rfl

/-! ### Calls of the scanner -/

/-- A token, and the offsets between which it stands in a text. -/
structure Span where
  token : Token
  start : Nat
  stop : Nat
  deriving DecidableEq, Repr

namespace Scanner

/-- The scanner behind some calls of `next`. -/
def behind : Nat → Scanner → Scanner
  | 0, s => s
  | n + 1, s => s.next.2.behind n

/-- What the next call of `next` goes over behind the blanks.  At the end that is nothing. -/
def span (s : Scanner) : Span :=
  ⟨s.next.1, s.skipBlanks.place.offset, s.next.2.place.offset⟩

/-- The spans of the tokens that are left. -/
def spans (s : Scanner) : List Span :=
  match _h : s.next? with
  | none => []
  | some (_, s') => s.span :: s'.spans
termination_by s.rest.length
decreasing_by exact length_rest_lt (by assumption)

theorem spans_of_none {s : Scanner} (h : s.next? = none) : s.spans = [] := by
  rw [spans]
  split
  · rfl
  · next heq => rw [h] at heq; contradiction

theorem spans_of_some {s s' : Scanner} {t : Token} (h : s.next? = some (t, s')) :
    s.spans = s.span :: s'.spans := by
  rw [spans]
  split
  · next heq => rw [h] at heq; contradiction
  · next heq =>
    rw [h] at heq
    cases heq
    rfl

theorem next_of_some {s s' : Scanner} {t : Token} (h : s.next? = some (t, s')) :
    s.next = (t, s') := by
  rw [next, h]
  rfl

theorem next_of_none {s : Scanner} (h : s.next? = none) :
    s.next = (endToken s.skipBlanks.place, s.skipBlanks) := by
  rw [next, h]
  rfl

/-- The tokens of the spans are the tokens. -/
theorem map_token_spans (s : Scanner) : s.spans.map Span.token = s.tokens := by
  fun_induction tokens s with
  | case1 s h => rw [spans_of_none h, List.map_nil]
  | case2 s t s' h ih =>
    rw [spans_of_some h, List.map_cons, ih, span, next_of_some h]

/-- The spans are those of the calls, one after another. -/
theorem spans_eq_map_behind (s : Scanner) :
    s.spans = (List.range s.spans.length).map fun k => (s.behind k).span := by
  fun_induction tokens s with
  | case1 s hs => rw [spans_of_none hs, List.length_nil, List.range_zero, List.map_nil]
  | case2 s t s' hs ih =>
    rw [spans_of_some hs, List.length_cons, List.range_succ_eq_map, List.map_cons, List.map_map]
    refine congrArg (s.span :: ·) (ih.trans (List.map_congr_left fun k _ => ?_))
    rw [Function.comp_apply, behind, next_of_some hs]

/-! ### The end -/

/-- The place at which the text ends. -/
def last (s : Scanner) : Place := s.place.afterAll s.rest

theorem last_skip (n : Nat) (s : Scanner) : (s.skip n).last = s.last := by
  rw [last, last, skip, ← Place.afterAll_append, List.take_append_drop]

theorem last_of_some {s s' : Scanner} {t : Token} (h : s.next? = some (t, s')) :
    s'.last = s.last := by
  unfold next? at h
  split at h
  · contradiction
  · cases h
    exact (last_skip _ _).trans (last_skip _ _)

/-- Where nothing is left, skipping blanks leads to the end. -/
theorem skipBlanks_of_none {s : Scanner} (h : s.next? = none) : s.skipBlanks = ⟨s.last, []⟩ := by
  have hrest : s.skipBlanks.rest = [] := by
    unfold next? at h
    split at h
    · assumption
    · contradiction
  have hlength : s.rest.length ≤ (s.rest.takeWhile Token.isBlank).length :=
    List.drop_eq_nil_iff.mp hrest
  unfold skipBlanks skip
  rw [List.take_of_length_le hlength, List.drop_of_length_le hlength]
  rfl

/-- At the end a call goes over nothing. -/
theorem span_of_none {s : Scanner} (h : s.next? = none) :
    s.span = ⟨endToken s.last, s.last.offset, s.last.offset⟩ := by
  rw [span, next_of_none h, skipBlanks_of_none h]

/-- Behind the last token nothing is left, however often one asks. -/
theorem next?_behind (s : Scanner) (k : Nat) :
    (s.behind (s.spans.length + k)).next? = none ∧
      (s.behind (s.spans.length + k)).last = s.last := by
  fun_induction tokens s with
  | case1 s hs =>
    have hagain : ∀ k, (⟨s.last, []⟩ : Scanner).behind k = ⟨s.last, []⟩ := by
      intro k
      induction k with
      | zero => rfl
      | succ k ih => exact ih
    rw [spans_of_none hs, List.length_nil, Nat.zero_add]
    cases k with
    | zero => exact ⟨hs, rfl⟩
    | succ k =>
      rw [behind, next_of_none hs, skipBlanks_of_none hs, hagain]
      exact ⟨rfl, rfl⟩
  | case2 s t s' hs ih =>
    rw [spans_of_some hs, List.length_cons, Nat.succ_add, behind, next_of_some hs,
      ← last_of_some hs]
    exact ih

end Scanner

/-! ### Tokens on their spans -/

/-- Whether a token of a kind would have gone on with a character. -/
def Token.Kind.goesOnWith : Kind → Char → Bool
  | .ident, c | .fnWord, c | .letWord, c | .trueWord, c | .falseWord, c | .ifWord, c
  | .elseWord, c | .returnWord, c | .forWord, c => isWordPart c
  | .int, c => isDigit c
  | .assign, c | .bang, c => c = '='
  | _, _ => false

/-- Some characters spell a token: they are its literal, which has quotes around it if it is that
of a string.  The second quote is left out only where the text ends. -/
def Token.IsSpelled (t : Token) (cs : List Char) (ends : Prop) : Prop :=
  if t.kind = .string then
    '"' ∉ t.literal.toList ∧
      (cs = '"' :: (t.literal.toList ++ ['"']) ∨ ends ∧ cs = '"' :: t.literal.toList)
  else cs = t.literal.toList

namespace Lexeme

open Token

variable {l : Lexeme} {rest : List Char}

theorem goesOnWith_ofWord (word : String) (c : Char) :
    (Kind.ofWord word).goesOnWith c = isWordPart c := by
  unfold Kind.ofWord
  repeat' split
  all_goals rfl

/-- What follows the characters that were taken is no other such character. -/
theorem apart_of_takeWhile {p : Char → Bool} {cs rest : List Char}
    (h : (cs ++ rest).takeWhile p = cs) : Apart p rest := by
  have hcs : ∀ c ∈ cs, p c := by
    rw [← h]
    exact List.all_eq_true.mp List.all_takeWhile
  rintro c hc
  obtain ⟨rest, rfl⟩ : ∃ rest', rest = c :: rest' := List.head?_eq_some_iff.mp hc
  rw [List.takeWhile_append_of_pos hcs, List.takeWhile_cons] at h
  rw [Bool.eq_false_iff]
  intro hp
  rw [if_pos hp] at h
  have := congrArg List.length h
  simp at this

/-- A symbol of one character that could be the first of two is not followed by the second. -/
theorem goesOnWith_symbol {c : Char} {cs : List Char}
    (h : (symbol c (cs ++ rest)).spelling = c :: cs) :
    Apart (symbol c (cs ++ rest)).kind.goesOnWith rest := by
  generalize hds : cs ++ rest = ds at h ⊢
  fun_cases symbol c ds with
  | case1 | case2 => exact fun _ _ => rfl
  | case3 =>
    next not_eq not_notEq =>
    rw [symbol.eq_3 c ds not_eq not_notEq] at h
    obtain rfl : cs = [] := (List.cons.inj h).2.symm
    intro d hd
    obtain ⟨tail, rfl⟩ := List.head?_eq_some_iff.mp hd
    obtain rfl : d :: tail = ds := hds
    unfold plain Kind.ofChar?
    split
    case h_1 => exact decide_eq_false fun heq => not_eq tail rfl (heq ▸ rfl)
    case h_4 => exact decide_eq_false fun heq => not_notEq tail rfl (heq ▸ rfl)
    all_goals rfl

/-- What follows a lexeme does not go on with it. -/
theorem StandsBefore.goesOnWith (h : l.StandsBefore rest) :
    Apart l.kind.goesOnWith rest := by
  obtain ⟨c, cs, hs, -, rfl⟩ := h
  unfold first at hs ⊢
  split at hs
  · next hq =>
    rw [if_pos hq]
    exact fun _ _ => rfl
  next hq =>
  rw [if_neg hq]
  split at hs
  · next hl =>
    rw [if_pos hl]
    intro d hd
    rw [plain, goesOnWith_ofWord]
    exact apart_of_takeWhile (List.cons.inj hs).2 d hd
  next hl =>
  rw [if_neg hl]
  split at hs
  · next hd =>
    rw [if_pos hd]
    exact apart_of_takeWhile (List.cons.inj hs).2
  next hd =>
  rw [if_neg hd]
  exact goesOnWith_symbol hs

/-- Only a quote begins a lexeme whose literal is not its spelling. -/
theorem exists_plain_of_ne_quote {c : Char} (hc : c ≠ '"') (cs : List Char) :
    ∃ kind spelling, kind ≠ .string ∧ first c cs = plain kind spelling := by
  unfold first
  rw [if_neg hc]
  split
  · exact ⟨_, _, ofWord_ne_string _, rfl⟩
  split
  · exact ⟨_, _, by decide, rfl⟩
  fun_cases symbol c cs with
  | case1 | case2 => exact ⟨_, _, by decide, rfl⟩
  | case3 =>
    refine ⟨_, _, ?_, rfl⟩
    unfold Kind.ofChar?
    split <;> decide

/-- The token of a lexeme is spelled by the lexeme. -/
theorem StandsBefore.isSpelled (h : l.StandsBefore rest) (p : Place) :
    (l.token p).IsSpelled l.spelling (rest = []) := by
  obtain ⟨c, cs, hs, -, rfl⟩ := h
  by_cases hc : c = '"'
  · subst hc
    rw [first, if_pos rfl] at hs ⊢
    have is_string : ((quoted (cs ++ rest)).token p).kind = .string := rfl
    have hliteral : ((quoted (cs ++ rest)).token p).literal.toList =
        (cs ++ rest).takeWhile (· ≠ '"') := String.toList_ofList
    rw [Token.IsSpelled, if_pos is_string, hliteral]
    refine ⟨fun hmem => ?_, ?_⟩
    · simpa using List.all_eq_true.mp List.all_takeWhile _ hmem
    cases hbehind : (cs ++ rest).dropWhile (· ≠ '"') with
    | nil =>
      -- there is no quote in what follows, so the string takes all of it
      have hall := List.takeWhile_append_dropWhile (p := (· ≠ '"')) (l := cs ++ rest)
      rw [hbehind, List.append_nil] at hall
      rw [quoted, hbehind, List.take_nil, List.append_nil] at hs ⊢
      refine .inr ⟨?_, rfl⟩
      rw [hall] at hs
      exact List.append_right_eq_self.mp (List.cons.inj hs).2
    | cons d ds =>
      have hd := List.head?_dropWhile_not (· ≠ '"') (cs ++ rest)
      rw [hbehind] at hd
      obtain rfl : d = '"' := by simpa using hd
      rw [quoted, hbehind]
      exact .inl rfl
  · obtain ⟨kind, spelling, hkind, heq⟩ := exists_plain_of_ne_quote hc (cs ++ rest)
    have not_string : ((plain kind spelling).token p).kind ≠ .string := hkind
    rw [heq, Token.IsSpelled, if_neg not_string]
    exact (String.toList_ofList).symm

/-- What is read somewhere is a lexeme of the tables, or a string that the text ends. -/
theorem StandsBefore.wellFormed_or_unclosed (h : l.StandsBefore rest) :
    l.WellFormed ∨ rest = [] ∧ ∃ content, '"' ∉ content ∧ l = ⟨.string, content, '"' :: content⟩ := by
  have hformed := h.wellFormed .start
  have hspelled := h.isSpelled .start
  obtain ⟨kind, literal, spelling⟩ := l
  by_cases hkind : kind = .string
  · subst hkind
    simp only [Token.origin, Token.IsSpelled, token, if_pos, String.toList_ofList] at hformed hspelled
    obtain ⟨hquote, rfl | ⟨hrest, rfl⟩⟩ := hspelled
    · exact .inl hformed
    · exact .inr ⟨hrest, literal, hquote, rfl⟩
  · simp only [Token.origin, Token.IsSpelled, token, if_neg hkind, String.toList_ofList]
      at hformed hspelled
    subst hspelled
    exact .inl hformed

end Lexeme

/-! ### Spans of a text -/

/-- A token stands on its span: it is not the end, there is at least one character, they spell the
token, the character behind them does not go on with it, and its line and its column are those of
the first one. -/
structure Span.StandsIn (text : List Char) (sp : Span) : Prop where
  not_end : sp.token.kind ≠ .eof
  nonempty : sp.start < sp.stop
  inside : sp.stop ≤ text.length
  spelled : sp.token.IsSpelled (text.extract sp.start sp.stop) (sp.stop = text.length)
  maximal : ∀ c ∈ text[sp.stop]?, sp.token.kind.goesOnWith c = false
  line : sp.token.line = lineAt text sp.start
  column : sp.token.column = columnAt text sp.start

/-- Spans cover a text from an offset on: tokens stand on them, they come one behind the other, and
what they leave out is blank. -/
structure Covers (text : List Char) (least : Nat) (spans : List Span) : Prop where
  stands : ∀ sp ∈ spans, sp.StandsIn text
  behind : ∀ sp ∈ spans, least ≤ sp.start
  ordered : spans.Pairwise fun sp sp' => sp.stop ≤ sp'.start
  blanks : ∀ offset, least ≤ offset → (∀ sp ∈ spans, ¬ (sp.start ≤ offset ∧ offset < sp.stop)) →
    ∀ c ∈ text[offset]?, Token.isBlank c

section

variable {text : List Char} {least : Nat} {spans : List Span}

theorem covers_nil (h : text.length ≤ least) : Covers text least [] where
  stands := nofun
  behind := nofun
  ordered := .nil
  blanks offset hle _ c hc := by
    rw [List.getElem?_eq_none (Nat.le_trans h hle)] at hc
    contradiction

/-- A blank in front is left out. -/
theorem Covers.blank (h : Covers text (least + 1) spans) (hblank : ∀ c ∈ text[least]?,
    Token.isBlank c) : Covers text least spans where
  stands := h.stands
  behind sp hsp := Nat.le_of_succ_le (h.behind sp hsp)
  ordered := h.ordered
  blanks offset hle hout c hc := by
    rcases Nat.eq_or_lt_of_le hle with rfl | hlt
    · exact hblank c hc
    · exact h.blanks offset hlt hout c hc

/-- A token in front of the others. -/
theorem Covers.cons {sp : Span} (hsp : sp.StandsIn text) (h : Covers text sp.stop spans) :
    Covers text sp.start (sp :: spans) where
  stands := List.forall_mem_cons.mpr ⟨hsp, h.stands⟩
  behind := List.forall_mem_cons.mpr ⟨Nat.le_refl _, fun sp' hsp' =>
    Nat.le_trans (Nat.le_of_lt hsp.nonempty) (h.behind sp' hsp')⟩
  ordered := List.pairwise_cons.mpr ⟨h.behind, h.ordered⟩
  blanks offset hle hout c hc := by
    obtain ⟨hfirst, hothers⟩ := List.forall_mem_cons.mp hout
    exact h.blanks offset (by omega) hothers c hc

end

/-- A lexeme that is read stands on its span. -/
theorem Lexeme.StandsBefore.standsIn {l : Lexeme} {rest : List Char} (h : l.StandsBefore rest)
    (before : List Char) :
    (⟨l.token (Place.start.afterAll before), before.length,
      before.length + l.spelling.length⟩ : Span).StandsIn (before ++ (l.spelling ++ rest)) := by
  have hplace := Place.afterAll_start before (l.spelling ++ rest)
  have hpos : 0 < l.spelling.length := by
    obtain ⟨c, cs, hs, -⟩ := h
    rw [hs]
    exact Nat.succ_pos _
  constructor
  · exact h.kind_ne_eof
  · exact Nat.lt_add_of_pos_right hpos
  · simp only [List.length_append]
    omega
  · have hslice : (before ++ (l.spelling ++ rest)).extract before.length
        (before.length + l.spelling.length) = l.spelling := by
      rw [List.extract_eq_take_drop, List.drop_left, Nat.add_sub_cancel_left, List.take_left]
    have hends : (before.length + l.spelling.length =
        (before ++ (l.spelling ++ rest)).length) = (rest = []) := by
      rw [← List.length_eq_zero_iff, List.length_append, List.length_append]
      exact propext ⟨fun h => by omega, fun h => by omega⟩
    rw [hslice, hends]
    exact h.isSpelled _
  · intro c hc
    rw [← List.append_assoc, ← List.length_append,
      List.getElem?_append_right (Nat.le_refl _), Nat.sub_self, ← List.head?_eq_getElem?] at hc
    exact h.goesOnWith c hc
  · exact congrArg Place.line hplace
  · exact congrArg Place.column hplace

/-- A blank in front stands on no span. -/
theorem Scanner.spans_blank {c : Char} (hc : Token.isBlank c) (p : Place) (cs : List Char) :
    (⟨p, c :: cs⟩ : Scanner).spans = (⟨p.after c, cs⟩ : Scanner).spans := by
  have hskip := skipBlanks_blank hc p cs
  have hnext : (⟨p, c :: cs⟩ : Scanner).next? = (⟨p.after c, cs⟩ : Scanner).next? := by
    rw [next?, next?, hskip]
  have hspan : (⟨p, c :: cs⟩ : Scanner).span = (⟨p.after c, cs⟩ : Scanner).span := by
    rw [span, span, next, next, hnext, hskip]
  cases hs : (⟨p.after c, cs⟩ : Scanner).next? with
  | none => rw [spans_of_none hs, spans_of_none (hnext.trans hs)]
  | some r => rw [spans_of_some hs, spans_of_some (hnext.trans hs), hspan]

/-- A lexeme in front stands on the first span. -/
theorem Scanner.spans_lexeme {l : Lexeme} {rest : List Char} (h : l.StandsBefore rest)
    (before : List Char) :
    (⟨Place.start.afterAll before, l.spelling ++ rest⟩ : Scanner).spans =
      ⟨l.token (Place.start.afterAll before), before.length, before.length + l.spelling.length⟩ ::
        (⟨Place.start.afterAll (before ++ l.spelling), rest⟩ : Scanner).spans := by
  have hoffset : ∀ cs, (Place.start.afterAll cs).offset = cs.length := fun cs =>
    congrArg Place.offset (Place.afterAll_start cs [])
  have hnext := next?_of_standsBefore h (Place.start.afterAll before)
  rw [spans_of_some hnext, span, next_of_some hnext, skipBlanks_of_standsBefore h,
    ← Place.afterAll_append, hoffset, hoffset, List.length_append]

/-- The spans that are left cover what is left. -/
theorem covers_spans (cs before : List Char) :
    Covers (before ++ cs) before.length (⟨Place.start.afterAll before, cs⟩ : Scanner).spans := by
  induction cs using Lexeme.text_induction generalizing before with
  | nil =>
    rw [List.append_nil, Scanner.spans_of_none rfl]
    exact covers_nil (Nat.le_refl _)
  | blank c cs hc ih =>
    have hbehind := ih (before ++ [c])
    rw [List.append_assoc, List.length_append, Place.afterAll_append] at hbehind
    rw [Scanner.spans_blank hc]
    refine Covers.blank hbehind fun d hd => ?_
    rw [List.getElem?_append_right (Nat.le_refl _), Nat.sub_self] at hd
    exact Option.some.inj hd ▸ hc
  | lexeme l rest hl ih =>
    have hbehind := ih (before ++ l.spelling)
    rw [List.append_assoc, List.length_append] at hbehind
    rw [Scanner.spans_lexeme hl]
    exact Covers.cons (hl.standsIn before) hbehind

/-- **The spans of the calls cover a text.**  Up to the end every call of the scanner goes over
one more span, and the tokens on the spans are those of the text.  From there on every call gives
the end, at its place by counting, and goes over nothing. -/
theorem spans_cover_text (text : String) :
    let cs := text.toList
    let s := Scanner.ofText text
    let last : Token := ⟨.eof, "", lineAt cs cs.length, columnAt cs cs.length⟩
    Covers cs 0 s.spans ∧
      s.spans = (List.range s.spans.length).map (fun k => (s.behind k).span) ∧
      (∀ k, (s.behind (s.spans.length + k)).span = ⟨last, cs.length, cs.length⟩) ∧
      tokenize text = s.spans.map Span.token ++ [last] := by
  intro cs s last
  have hplace : Place.start.afterAll cs = ⟨cs.length, last.line, last.column⟩ := by
    have := Place.afterAll_start cs []
    rwa [List.append_nil] at this
  refine ⟨covers_spans cs [], s.spans_eq_map_behind, fun k => ?_, ?_⟩
  · obtain ⟨hnone, hlast⟩ := s.next?_behind k
    have hend : s.last = Place.start.afterAll cs := rfl
    rw [Scanner.span_of_none hnone, hlast, hend, hplace]
    rfl
  · rw [tokenize, tokens, ← Scanner.map_token_spans, hplace]
    rfl

/-- A line feed in a string and one behind it, and a string that the text ends. -/
example : (Scanner.ofText "if\"a\n\"\n !=\"b").spans =
    [⟨⟨.ifWord, "if", 1, 1⟩, 0, 2⟩, ⟨⟨.string, "a\n", 1, 3⟩, 2, 6⟩, ⟨⟨.notEq, "!=", 3, 2⟩, 8, 10⟩,
      ⟨⟨.string, "b", 3, 4⟩, 10, 12⟩] := by
  decide +kernel

end Monkey
