import Monkey.Proofs.Token.Spans
import Monkey.Session.Highlight

/-!
# What is shown of a line

Colouring puts a line together again from its tokens.  A token does not tell how long it is in the
line, since a string is without its quotes, of which the second one may not be there.  Still each
piece is just what the scanner went over: a line has no line feed, so columns are offsets, and a
string that is not closed ends with the line.

## Main definitions

* `Style.kinds` — the kinds of token that have a style.
* `IsGap` — what is shown between two tokens.
* `Shows` — what is shown of a line from an offset on, token by token.

## Main results

* `tokenText_of_standsIn` — the text of a token in a line is that of its span.
* `Shows.flatMap_text` — nothing of a line is lost.
* `highlightLine_shows_tokens` — the pieces of a line.
-/

namespace Monkey

/-! ### Styles -/

/-- The names of builtins, which have a style of their own. -/
def Style.builtinNames : List String := ["len", "first", "last", "rest", "push", "puts"]

/-- The kinds of token that have a style, builtins apart. -/
def Style.kinds : Style → List Token.Kind
  | keyword => [.fnWord, .letWord, .ifWord, .elseWord, .returnWord, .forWord]
  | boolean => [.trueWord, .falseWord]
  | number => [.int]
  | string => [.string]
  | error => [.illegal]
  | builtin => []
  | plain => [.ident, .assign, .plus, .minus, .bang, .asterisk, .slash, .lt, .gt, .eq, .notEq,
      .comma, .semicolon, .colon, .lparen, .rparen, .lbrace, .rbrace, .lbracket, .rbracket, .eof]

theorem Builtin.isSome_ofName?_iff (name : String) :
    (ofName? name).isSome ↔ name ∈ Style.builtinNames := by
  constructor
  · intro h
    obtain ⟨b, hb⟩ := Option.isSome_iff_exists.mp h
    have hname : b.name = name := by simpa using List.find?_some hb
    rw [← hname]
    cases b <;> decide
  · intro h
    have all : ∀ name ∈ Style.builtinNames, (ofName? name).isSome = true := by decide
    exact all name h

/-- The style of a token is that of its kind, unless the token names a builtin. -/
theorem Style.ofToken_eq_iff (t : Token) (s : Style) :
    ofToken t = s ↔
      if t.kind = .ident ∧ t.literal ∈ builtinNames then s = .builtin else t.kind ∈ s.kinds := by
  obtain ⟨kind, literal, line, column⟩ := t
  cases kind
  case ident =>
    by_cases h : literal ∈ builtinNames <;>
      cases s <;> simp [ofToken, Builtin.isSome_ofName?_iff, h, kinds]
  all_goals cases s <;> simp [ofToken, kinds]

/-! ### Pieces -/

/-- What is shown between two tokens: nothing if one follows the other at once, and otherwise one
plain piece, which is blank. -/
def IsGap (line : List Char) (start stop : Nat) (pieces : List Fragment) : Prop :=
  start = stop ∧ pieces = [] ∨
    start < stop ∧ pieces = [⟨.plain, line.extract start stop⟩] ∧
      ∀ c ∈ line.extract start stop, c = ' ' ∨ c = '\t' ∨ c = '\r'

/-- What is shown of a line from an offset on: for each token one piece in its style, which is what
the token stands on, with gaps in between and behind. -/
inductive Shows (line : List Char) : Nat → List Span → List Fragment → Prop
  | ending {done : Nat} {gap : List Fragment} (blank : IsGap line done line.length gap) :
    Shows line done [] gap
  | token {done : Nat} {sp : Span} {spans : List Span} {gap pieces : List Fragment}
    (blank : IsGap line done sp.start gap) (stands : sp.StandsIn line)
    (others : Shows line sp.stop spans pieces) :
    Shows line done (sp :: spans)
      (gap ++ ⟨.ofToken sp.token, line.extract sp.start sp.stop⟩ :: pieces)

section

variable {line cs : List Char} {start stop done : Nat} {sp : Span} {spans : List Span}
  {gap pieces : List Fragment}

theorem slice_eq_extract (line : List Char) (start stop : Nat) :
    slice line start stop = line.extract start stop := by
  rw [slice, List.extract_eq_take_drop, List.drop_take]

theorem extract_append_drop (h : start ≤ stop) :
    line.extract start stop ++ line.drop stop = line.drop start := by
  have hstop : line.drop stop = (line.drop start).drop (stop - start) := by
    rw [List.drop_drop]
    congr 1
    omega
  rw [List.extract_eq_take_drop, hstop, List.take_append_drop]

theorem Span.StandsIn.length_extract (stands : sp.StandsIn line) :
    (line.extract sp.start sp.stop).length = sp.stop - sp.start := by
  have hinside := stands.inside
  rw [List.extract_eq_take_drop, List.length_take, List.length_drop]
  omega

theorem IsGap.le (h : IsGap line start stop gap) : start ≤ stop := by
  rcases h with ⟨rfl, -⟩ | ⟨hlt, -⟩ <;> omega

/-- The text of a gap is what stands there. -/
theorem IsGap.flatMap_text (h : IsGap line start stop gap) :
    gap.flatMap Fragment.text = line.extract start stop := by
  rcases h with ⟨rfl, rfl⟩ | ⟨-, rfl, -⟩ <;> simp

/-- **Nothing of a line is lost**, and nothing is shown twice. -/
theorem Shows.flatMap_text (h : Shows line done spans pieces) :
    pieces.flatMap Fragment.text = line.drop done := by
  induction h with
  | ending blank =>
    rw [blank.flatMap_text, ← extract_append_drop blank.le, List.drop_length, List.append_nil]
  | token blank stands others ih =>
    rw [List.flatMap_append, List.flatMap_cons, ih, blank.flatMap_text,
      extract_append_drop (Nat.le_of_lt stands.nonempty), extract_append_drop blank.le]

/-! ### Tokens in a line -/

/-- In a line, columns are offsets. -/
theorem columnAt_of_line (h : '\n' ∉ line) (hle : start ≤ line.length) :
    columnAt line start = start + 1 := by
  have hall : ∀ c ∈ (line.take start).reverse, decide (c ≠ '\n') = true := by
    intro c hc
    have hmem : c ∈ line := List.mem_of_mem_take (List.mem_reverse.mp hc)
    simpa using ne_of_mem_of_not_mem hmem h
  rw [columnAt, ← List.append_nil (List.reverse _), List.takeWhile_append_of_pos hall,
    List.takeWhile_nil, List.append_nil, List.length_reverse, List.length_take]
  omega

theorem Span.StandsIn.column_of_line (stands : sp.StandsIn line) (h : '\n' ∉ line) :
    sp.token.column = sp.start + 1 := by
  have hle : sp.start ≤ line.length := Nat.le_trans (Nat.le_of_lt stands.nonempty) stands.inside
  rw [stands.column, columnAt_of_line h hle]

/-- The text of a token in a line is that of its span. -/
theorem tokenText_of_standsIn (h : '\n' ∉ line) (stands : sp.StandsIn line) :
    tokenText line sp.token = line.extract sp.start sp.stop := by
  have column := stands.column_of_line h
  have hlength := stands.length_extract
  obtain ⟨-, nonempty, -, spelled, -⟩ := stands
  by_cases hkind : sp.token.kind = .string
  · have hbehind : line.drop (sp.start + 1 + sp.token.literal.length) =
        (line.extract sp.start sp.stop ++ line.drop sp.stop).drop
          (sp.token.literal.toList.length + 1) := by
      rw [extract_append_drop (Nat.le_of_lt nonempty), List.drop_drop, String.length_toList]
      congr 1
      omega
    rw [Token.IsSpelled, if_pos hkind] at spelled
    simp only [tokenText, if_pos hkind, column, Nat.add_sub_cancel, slice_eq_extract, hbehind]
    obtain ⟨-, hclosed | ⟨hends, hopen⟩⟩ := spelled
    · -- the second quote is the last character of the span
      have hstop : sp.start + 1 + sp.token.literal.length + 1 = sp.stop := by
        rw [hclosed, List.length_cons, List.length_append, String.length_toList] at hlength
        simp only [List.length_singleton] at hlength
        omega
      rw [hclosed, if_pos (by simp), hstop, hclosed]
    · -- there is nothing behind the span
      have hstop : sp.start + 1 + sp.token.literal.length = sp.stop := by
        rw [hopen, List.length_cons, String.length_toList] at hlength
        omega
      rw [hopen, hends, if_neg (by simp), hstop, hopen]
  · rw [Token.IsSpelled, if_neg hkind] at spelled
    rw [tokenText, if_neg hkind, spelled]

/-! ### The pieces of a line -/

/-- The blanks in front of the first span, and what the other spans cover. -/
theorem Covers.uncons (h : Covers cs done (sp :: spans)) :
    sp.StandsIn cs ∧ done ≤ sp.start ∧ Covers cs sp.stop spans ∧
      ∀ offset, done ≤ offset → offset < sp.start → ∀ c ∈ cs[offset]?, Token.isBlank c := by
  obtain ⟨hstands, hothers⟩ := List.forall_mem_cons.mp h.stands
  obtain ⟨hbehind, hordered⟩ := List.pairwise_cons.mp h.ordered
  have hle : done ≤ sp.start := h.behind sp List.mem_cons_self
  have hnonempty := hstands.nonempty
  refine ⟨hstands, hle, ⟨hothers, hbehind, hordered, ?_⟩, ?_⟩
  · intro offset hoffset hout
    exact h.blanks offset (by omega) (List.forall_mem_cons.mpr ⟨by omega, hout⟩)
  · intro offset hoffset hlt
    refine h.blanks offset hoffset (List.forall_mem_cons.mpr ⟨by omega, fun sp' hsp' => ?_⟩)
    have := hbehind sp' hsp'
    omega

/-- The piece between two tokens is a gap. -/
theorem isGap_of_blanks (h : '\n' ∉ cs) (hle : start ≤ stop)
    (blanks : ∀ offset, start ≤ offset → offset < stop → ∀ c ∈ cs[offset]?, Token.isBlank c) :
    IsGap cs start stop (if start < stop then [⟨.plain, slice cs start stop⟩] else []) := by
  split
  · next hlt =>
    refine .inr ⟨hlt, by rw [slice_eq_extract], fun c hc => ?_⟩
    rw [List.extract_eq_take_drop] at hc
    obtain ⟨k, hk⟩ := List.mem_iff_getElem?.mp hc
    have hmem : c ∈ cs := List.mem_of_mem_drop (List.mem_of_mem_take hc)
    have hblank : Token.isBlank c := by
      rw [List.getElem?_take] at hk
      split at hk
      · rw [List.getElem?_drop] at hk
        exact blanks (start + k) (by omega) (by omega) c hk
      · contradiction
    have hne : c ≠ '\n' := ne_of_mem_of_not_mem hmem h
    simpa [Token.isBlank, hne, or_assoc] using hblank
  · exact .inl ⟨by omega, rfl⟩

/-- The pieces of a line show the tokens that are left. -/
theorem shows_fragments (h : '\n' ∉ line) (hdone : done ≤ line.length)
    (covers : Covers line done spans) :
    Shows line done spans (fragments line done (spans.map Span.token)) := by
  induction spans generalizing done with
  | nil =>
    have hslice : line.drop done = slice line done line.length := by
      rw [slice, List.take_length]
    rw [List.map_nil, fragments, hslice]
    exact .ending (isGap_of_blanks h hdone fun offset hoffset _ =>
      covers.blanks offset hoffset nofun)
  | cons sp spans ih =>
    obtain ⟨stands, hle, others, blanks⟩ := covers.uncons
    have htext := tokenText_of_standsIn h stands
    have hstart : sp.token.column - 1 = sp.start := by
      rw [stands.column_of_line h, Nat.add_sub_cancel]
    have hnonempty := stands.nonempty
    have hlength := stands.length_extract
    have hstop : sp.start + (line.extract sp.start sp.stop).length = sp.stop := by omega
    -- neither test of the loop leaves the token out
    have hkept : ¬ ((line.extract sp.start sp.stop).isEmpty || decide (sp.start < done)) = true := by
      rw [Bool.or_eq_true, List.isEmpty_iff_length_eq_zero, decide_eq_true_eq]
      omega
    simp only [List.map_cons, fragments, htext, hstart, if_neg hkept, hstop]
    exact .token (isGap_of_blanks h hle blanks) stands (ih stands.inside others)

theorem shows_fragments_tokens (h : '\n' ∉ line) :
    Shows line 0 (Scanner.ofText (String.ofList line)).spans
      (fragments line 0 (tokens (String.ofList line))) := by
  have hcovers := covers_spans line []
  rw [tokens, ← Scanner.map_token_spans, Scanner.ofText, String.toList_ofList]
  exact shows_fragments h (Nat.zero_le _) hcovers

theorem highlightLine_nil : highlightLine [] = [⟨.plain, []⟩] := by
  have htokens : tokens (String.ofList []) = [] := Scanner.tokens_nil .start
  rw [highlightLine, htokens]
  rfl

/-- A line that is not empty has some piece. -/
theorem highlightLine_of_ne_nil (h : '\n' ∉ line) (hne : line ≠ []) :
    highlightLine line = fragments line 0 (tokens (String.ofList line)) := by
  have htext := (shows_fragments_tokens h).flatMap_text
  unfold highlightLine
  split
  · next hnil =>
    rw [hnil, List.flatMap_nil, List.drop_zero] at htext
    exact absurd htext.symm hne
  · rfl

end

/-- **Colouring covers a line exactly.**  The pieces of a line make up the line.  They are one for
each token of the line but the end, in order: the token's span in the style of its kind, or in that
of builtins if it is an identifier that names one; and in between and behind there are plain pieces
that are blank.  An empty line has one empty piece. -/
theorem highlightLine_shows_tokens {line : List Char} (h : '\n' ∉ line) :
    let spans := (Scanner.ofText (String.ofList line)).spans
    (highlightLine line).flatMap Fragment.text = line ∧
      (∃ last, last.kind = .eof ∧
        tokenize (String.ofList line) = spans.map Span.token ++ [last]) ∧
      (line ≠ [] → Shows line 0 spans (highlightLine line)) ∧
      (line = [] → highlightLine line = [⟨.plain, []⟩]) ∧
      ∀ t s, Style.ofToken t = s ↔
        if t.kind = .ident ∧ t.literal ∈ Style.builtinNames then s = .builtin
        else t.kind ∈ s.kinds := by
  intro spans
  have hpieces : line ≠ [] → Shows line 0 spans (highlightLine line) := by
    intro hne
    rw [highlightLine_of_ne_nil h hne]
    exact shows_fragments_tokens h
  refine ⟨?_, ⟨Scanner.endToken (Place.start.afterAll (String.ofList line).toList), rfl, ?_⟩,
    hpieces, ?_, Style.ofToken_eq_iff⟩
  · by_cases hne : line = []
    · rw [hne, highlightLine_nil]
      rfl
    · exact (hpieces hne).flatMap_text
  · rw [tokenize, tokens, Scanner.map_token_spans]
  · rintro rfl
    exact highlightLine_nil

/-- Two strings without a gap, the first of them empty, a name that is a builtin's and one that is
not, and a string that the line ends. -/
theorem highlightLine_shows_tokens_strings :
    let line := "\tlen(\"\"\"a\" lens)\r \"b".toList
    let spans := (Scanner.ofText (String.ofList line)).spans
    '\n' ∉ line ∧ (highlightLine line).flatMap Fragment.text = line ∧
      Shows line 0 spans (highlightLine line) ∧
      highlightLine line =
        [⟨.plain, ['\t']⟩, ⟨.builtin, "len".toList⟩, ⟨.plain, ['(']⟩, ⟨.string, "\"\"".toList⟩,
          ⟨.string, "\"a\"".toList⟩, ⟨.plain, [' ']⟩, ⟨.plain, "lens".toList⟩, ⟨.plain, [')']⟩,
          ⟨.plain, ['\r', ' ']⟩, ⟨.string, "\"b".toList⟩] := by
  intro line spans
  have hline : '\n' ∉ line := by decide
  obtain ⟨htext, -, hshows, -⟩ := highlightLine_shows_tokens hline
  exact ⟨hline, htext, hshows (by decide), by decide +kernel⟩

end Monkey
