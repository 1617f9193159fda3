import Monkey.Proofs.Syntax.Exact
import Monkey.Proofs.Syntax.Formula

/-!
# Printed formulas

The text of a formula is read as its lexemes, because in a printed formula a word or a number
is followed by a blank or a delimiter and `!` is never followed by `=`.  The lexemes are a
phrase whose tree is that of the formula, so the text is read as the formula.

## Main definitions

* `Formula.Continuable` — some pieces may stand before whatever does not run on with a word.
* `ReadsAs` — a text is read as one expression.

## Main results

* `Formula.continuable_pieces` — a printed formula is read as its lexemes.
* `Formula.reads_pieces` — its lexemes are a phrase with the tree of the formula.
* `Formula.readsAs_text` — a printed formula is read as the formula.
-/

namespace Monkey

namespace Formula

/-! ### Lexemes -/

open Lexeme (Apart StandsBefore standsBefore_symbol)
open Piece (render)

theorem apart_word_of_standsBefore_symbol {c : Char} {kind : Token.Kind} (rest : List Char)
    (hk : Token.Kind.ofChar? c = some kind) : Apart Token.isWordPart (c :: rest) := by
  -- none of the delimiters is a part of words
  rintro _ ⟨⟩
  unfold Token.Kind.ofChar? at hk
  split at hk <;> first | rfl | cases hk

theorem standsBefore_lexeme_word (w : Word) {rest : List Char}
    (hr : Apart Token.isWordPart rest) : w.lexeme.StandsBefore rest := by
  have h := Lexeme.standsBefore_word w.isLetter_first w.isWordPart_others hr
  rw [w.not_keyword] at h
  exact h

theorem standsBefore_lexeme_numeral (d : Numeral) {rest : List Char}
    (hr : Apart Token.isWordPart rest) : d.lexeme.StandsBefore rest := by
  refine Lexeme.standsBefore_digits d.isDigit_first d.isDigit_others fun c hc => ?_
  have h := hr c hc
  rw [Token.isWordPart, Bool.or_eq_false_iff] at h
  exact h.2

theorem standsBefore_booleanLexeme (b : Bool) {rest : List Char}
    (hr : Apart Token.isWordPart rest) : (booleanLexeme b).StandsBefore rest := by
  cases b with
  | true => exact Lexeme.standsBefore_word rfl (List.all_eq_true.mp rfl) hr
  | false => exact Lexeme.standsBefore_word rfl (List.all_eq_true.mp rfl) hr

/-- An operator stands before the blank behind it. -/
theorem standsBefore_operator (op : Operator) (rest : List Char) :
    op.lexeme.StandsBefore (' ' :: rest) := by
  cases op with
  | eq => exact Lexeme.standsBefore_eq _
  | notEq => exact Lexeme.standsBefore_notEq _
  | _ => exact standsBefore_symbol rfl (by decide) (by decide) _

/-- Some pieces have a first character, and no operator of two characters ends with it. -/
def Headed (ps : List Piece) : Prop := ∃ c cs, render ps = c :: cs ∧ c ≠ '='

theorem Headed.append {ps : List Piece} (h : Headed ps) (qs : List Piece) : Headed (ps ++ qs) := by
  obtain ⟨c, cs, hps, hc⟩ := h
  exact ⟨c, cs ++ render qs, by rw [Piece.render_append, hps, List.cons_append], hc⟩

theorem Headed.enclose {needed : Prop} [Decidable needed] {ps : List Piece} (h : Headed ps) :
    Headed (enclose needed ps) := by
  unfold Formula.enclose
  split
  · exact ⟨'(', _, rfl, by decide⟩
  · exact h

theorem headed_pieces (e : Formula) : Headed e.pieces := by
  -- only an operator in the middle has an equals sign, and a formula is in front of it
  cases e with
  | name w =>
    refine ⟨w.first, _, rfl, ?_⟩
    rintro heq
    exact absurd (heq ▸ w.isLetter_first) (by decide)
  | number d =>
    refine ⟨d.first, _, rfl, ?_⟩
    rintro heq
    exact absurd (heq ▸ d.isDigit_first) (by decide)
  | boolean b => cases b <;> exact ⟨_, _, rfl, by decide⟩
  | signed s e => cases s <;> exact ⟨_, _, rfl, by decide⟩
  | operation op l r => exact (headed_pieces l).enclose.append _
  | call f es => exact (headed_pieces f).enclose.append _
  | index l i => exact (headed_pieces l).enclose.append _

theorem standsBefore_sign (s : Sign) {ps : List Piece} (h : Headed ps) :
    s.lexeme.StandsBefore (render ps) := by
  cases s with
  | bang =>
    obtain ⟨c, cs, hps, hc⟩ := h
    rw [hps]
    refine Lexeme.standsBefore_bang ?_
    rintro _ ⟨⟩
    exact decide_eq_false hc
  | minus => exact standsBefore_symbol rfl (by decide) (by decide) _

/-- Some pieces may stand before everything that does not run on with a word. -/
def Continuable (ps : List Piece) : Prop :=
  ∀ qs, Apart Token.isWordPart (render qs) → Readable qs → Readable (ps ++ qs)

/-- A delimiter and what may stand behind it. -/
theorem readable_delimiter {c : Char} {kind : Token.Kind} {ps : List Piece}
    (hk : Token.Kind.ofChar? c = some kind) (ha : c ≠ '=') (hb : c ≠ '!') (h : Readable ps) :
    Readable (.lexeme (.plain kind [c]) :: ps) :=
  ⟨standsBefore_symbol hk ha hb _, h⟩

/-- A delimiter may follow whatever does not run on with it. -/
theorem Continuable.readable {c : Char} {kind : Token.Kind} {ps qs : List Piece}
    (h : Continuable ps) (hk : Token.Kind.ofChar? c = some kind) (ha : c ≠ '=') (hb : c ≠ '!')
    (hqs : Readable qs) : Readable (ps ++ .lexeme (.plain kind [c]) :: qs) :=
  h _ (apart_word_of_standsBefore_symbol _ hk) (readable_delimiter hk ha hb hqs)

theorem Continuable.enclose {needed : Prop} [Decidable needed] {ps : List Piece}
    (h : Continuable ps) : Continuable (enclose needed ps) := by
  intro qs hq hqs
  unfold Formula.enclose
  split
  · rw [List.cons_append, List.append_assoc]
    exact readable_delimiter rfl (by decide) (by decide)
      (h.readable rfl (by decide) (by decide) hqs)
  · exact h qs hq hqs

/-- Items behind a comma may follow whatever does not run on with it. -/
theorem Continuable.append_morePieces {ps : List Piece} (h : Continuable ps) {es : List Formula}
    (hes : Continuable (morePieces es)) : Continuable (ps ++ morePieces es) := by
  intro qs hq hqs
  rw [List.append_assoc]
  refine h _ ?_ (hes qs hq hqs)
  cases es with
  | nil => exact hq
  | cons e es => exact apart_word_of_standsBefore_symbol _ rfl

mutual

/-- A printed formula is read as its lexemes. -/
theorem continuable_pieces (e : Formula) : Continuable e.pieces := by
  intro qs hq hqs
  cases e with
  | name w => exact ⟨standsBefore_lexeme_word w hq, hqs⟩
  | number d => exact ⟨standsBefore_lexeme_numeral d hq, hqs⟩
  | boolean b => exact ⟨standsBefore_booleanLexeme b hq, hqs⟩
  | signed s e =>
    -- what the sign stands before is not known to the lexer: `!` must not meet an `=`
    refine ⟨standsBefore_sign s ((headed_pieces e).enclose.append qs), ?_⟩
    exact (continuable_pieces e).enclose qs hq hqs
  | operation op l r =>
    rw [pieces, List.append_assoc]
    refine (continuable_pieces l).enclose _ ?_ ?_
    · -- a blank comes behind the left operand
      rintro _ ⟨⟩
      rfl
    · refine ⟨rfl, standsBefore_operator op _, rfl, ?_⟩
      exact (continuable_pieces r).enclose qs hq hqs
  | call f es =>
    rw [pieces, List.append_assoc, List.cons_append, List.append_assoc]
    refine (continuable_pieces f).enclose.readable rfl (by decide) (by decide) ?_
    exact (continuable_itemPieces es).readable rfl (by decide) (by decide) hqs
  | index l i =>
    rw [pieces, List.append_assoc, List.cons_append, List.append_assoc]
    refine (continuable_pieces l).enclose.readable rfl (by decide) (by decide) ?_
    exact (continuable_pieces i).readable rfl (by decide) (by decide) hqs

theorem continuable_itemPieces (es : List Formula) : Continuable (itemPieces es) := by
  cases es with
  | nil => exact fun qs _ hqs => hqs
  | cons e es => exact (continuable_pieces e).append_morePieces (continuable_morePieces es)

theorem continuable_morePieces (es : List Formula) : Continuable (morePieces es) := by
  cases es with
  | nil => exact fun qs _ hqs => hqs
  | cons e es =>
    intro qs hq hqs
    refine readable_delimiter rfl (by decide) (by decide) ⟨rfl, ?_⟩
    exact (continuable_pieces e).append_morePieces (continuable_morePieces es) qs hq hqs

end

/-- A printed formula is read as its lexemes. -/
theorem map_forget_tokens_text (e : Formula) :
    (tokens e.text).map Relocation.forget.move = Piece.row e.pieces := by
  have h := continuable_pieces e [] (by rintro _ ⟨⟩) trivial
  rw [List.append_nil] at h
  exact map_forget_tokens h

/-! ### Phrases -/

open Phrase (Reads unaryRank operandRank)
open Piece (row)

theorem kind_operator (op : Operator) : Grammar.IsInfix op.lexeme.unplaced.kind ∧
    (Level.ofKind op.lexeme.unplaced.kind).rank = op.rank := by
  cases op <;> decide

theorem kind_sign (s : Sign) : Grammar.IsPrefix s.lexeme.unplaced.kind := by
  cases s <;> decide

theorem rank_operator (op : Operator) : 2 ≤ op.rank ∧ op.rank ≤ 5 := by
  cases op <;> decide

theorem two_le_rank (e : Formula) : 2 ≤ e.rank := by
  cases e with
  | operation op l r => exact (rank_operator op).1
  | _ => simp only [rank, Nat.reduceLeDiff]

theorem reads_numeral (d : Numeral) (rest : List Token) :
    Reads (.primary (.integer d.lexeme.unplaced d.value)) (d.lexeme.unplaced :: rest) rest := by
  have hd : d.lexeme.unplaced.literal.toList = d.first :: d.others := String.toList_ofList
  have range : Grammar.InRange d.lexeme.unplaced := by
    unfold Grammar.InRange
    rw [hd]
    exact ⟨d.length_le, d.value_le⟩
  have h : Reads _ (d.lexeme.unplaced :: rest) rest := .integer rfl range
  rw [hd] at h
  exact h

/-- What is a phrase by itself is one in parentheses, if it needs them for some rank. -/
theorem reads_enclose {least : Nat} {e : Formula} {needed : Prop} [Decidable needed]
    (h : ∀ rest, Reads (.expression e.rank e.tree) (row e.pieces ++ rest) rest)
    (hn : ¬ needed → least ≤ e.rank) (rest : List Token) :
    Reads (.expression least e.tree) (row (enclose needed e.pieces) ++ rest) rest := by
  unfold enclose
  split
  · rw [Piece.row_lexeme, Piece.row_append, List.cons_append, List.append_assoc]
    exact .simple (.grouped rfl ((h _).weaken (two_le_rank e)) rfl)
  · next hnn => exact (h rest).weaken (hn hnn)

mutual

/-- The lexemes of a printed formula are a phrase, and its tree is that of the formula. -/
theorem reads_pieces (e : Formula) (rest : List Token) :
    Reads (.expression e.rank e.tree) (row e.pieces ++ rest) rest := by
  cases e with
  | name w => exact .simple (.identifier rfl)
  | number d => exact .simple (reads_numeral d rest)
  | boolean b =>
    cases b with
    | true => exact .simple (.true rfl)
    | false => exact .simple (.false rfl)
  | signed s e =>
    exact .prefixed (Nat.le_refl _) (kind_sign s)
      (reads_enclose (reads_pieces e) Nat.le_of_not_lt rest)
  | operation op l r =>
    obtain ⟨hop, hrank⟩ := kind_operator op
    have right : Reads (.expression (op.rank + 1) r.tree)
        (row (enclose (r.rank ≤ op.rank) r.pieces) ++ rest) rest :=
      reads_enclose (reads_pieces r) Nat.lt_of_not_le rest
    have left (mid : List Token) : Reads (.expression op.rank l.tree)
        (row (enclose (l.rank < op.rank) l.pieces) ++ mid) mid :=
      reads_enclose (reads_pieces l) Nat.le_of_not_lt mid
    -- the phrase has the rank of the token, the formula that of its operator
    rw [← hrank] at right
    rw [pieces, Piece.row_append, List.append_assoc]
    refine .infixed (Nat.le_of_eq hrank.symm) ?_ hop right
    rw [hrank]
    exact left _
  | call f es =>
    have callee (mid : List Token) : Reads (.expression operandRank f.tree)
        (row (enclose (f.rank < 7) f.pieces) ++ mid) mid :=
      reads_enclose (reads_pieces f) Nat.le_of_not_lt mid
    have arguments := reads_itemPieces es ((Lexeme.plain .rparen [')']).unplaced :: rest)
    simp only [pieces, Piece.row_append, Piece.row_lexeme, Piece.row_nil, List.append_assoc,
      List.cons_append, List.nil_append]
    exact .call (callee _) rfl arguments rfl
  | index l i =>
    have left (mid : List Token) : Reads (.expression operandRank l.tree)
        (row (enclose (l.rank < 7) l.pieces) ++ mid) mid :=
      reads_enclose (reads_pieces l) Nat.le_of_not_lt mid
    have subscript := (reads_pieces i ((Lexeme.plain .rbracket [']']).unplaced :: rest)).weaken
      (two_le_rank i)
    simp only [pieces, Piece.row_append, Piece.row_lexeme, Piece.row_nil, List.append_assoc,
      List.cons_append, List.nil_append]
    exact .index (left _) rfl subscript rfl

theorem reads_itemPieces (es : List Formula) (rest : List Token) :
    Reads (.items (trees es)) (row (itemPieces es) ++ rest) rest := by
  cases es with
  | nil => exact .noItem
  | cons e es =>
    rw [itemPieces, Piece.row_append, List.append_assoc]
    exact .someItems ((reads_pieces e _).weaken (two_le_rank e)) (reads_morePieces es rest)

theorem reads_morePieces (es : List Formula) (rest : List Token) :
    Reads (.moreItems (trees es)) (row (morePieces es) ++ rest) rest := by
  cases es with
  | nil => exact .lastItem
  | cons e es =>
    rw [morePieces, Piece.row_lexeme, Piece.row_blank, Piece.row_append, List.cons_append,
      List.append_assoc]
    exact .nextItem rfl ((reads_pieces e _).weaken (two_le_rank e)) (reads_morePieces es rest)

end

end Formula

/-- A text is read as one expression: it is read at every depth greater than the number of its
tokens, and whenever it is read there is no complaint, and one statement with the expression,
up to the places of tokens. -/
def ReadsAs (text : String) (n : Node) : Prop :=
  (∀ depth, (tokens text).length < depth → (parse depth text).isSome) ∧
  ∀ depth p, parse depth text = some p → p.complaints = [] ∧
    ∃ t m, p.program = .program [.expressionStatement t m] ∧
      m.mapTokens Relocation.forget.move = n

/-- A tree of one statement, whatever its tokens are. -/
theorem Node.eq_of_mapTokens_eq_program {f : Token → Token} {n m : Node} {t : Token}
    (h : n.mapTokens f = .program [.expressionStatement t m]) :
    ∃ t' m', n = .program [.expressionStatement t' m'] ∧ m'.mapTokens f = m := by
  cases n with
  | program ns =>
    rw [mapTokens, mapTokensAll_eq_map, program.injEq, List.map_eq_cons_iff] at h
    obtain ⟨s, rest, rfl, hs, hrest⟩ := h
    obtain rfl := List.map_eq_nil_iff.mp hrest
    cases s with
    | expressionStatement t' m' => exact ⟨t', m', rfl, (expressionStatement.inj hs).2⟩
    | _ => cases hs
  | _ => cases h

/-- An expression is a program by itself. -/
theorem Phrase.reads_statement {n : Node} {ts : List Token} (h : Reads (.expression 2 n) ts []) :
    ∃ t, Reads (.statements [.expressionStatement t n]) ts [] := by
  -- the statement keeps the first token, so there has to be one
  obtain ⟨t, rest, rfl, -⟩ := begun_of_reads h
  exact ⟨t, .unended (.expressionSentence h) (fun hne => absurd rfl hne) .none⟩

/-- A text whose tokens are an expression is read as that, wherever the tokens stand. -/
theorem readsAs_of_reads {text : String} {n : Node} {ts : List Token}
    (h : (tokens text).map Relocation.forget.move = ts)
    (hn : Phrase.Reads (.expression 2 n) ts []) : ReadsAs text n := by
  refine ⟨fun depth => isSome_parse, fun depth p hp => ?_⟩
  obtain ⟨t, ht⟩ := Phrase.reads_statement hn
  obtain ⟨hprogram, hc⟩ := mapTokens_parse_of_reads hp (h.symm ▸ ht)
  exact ⟨hc, Node.eq_of_mapTokens_eq_program hprogram⟩

/-- A printed formula is read as the formula. -/
theorem Formula.readsAs_text (e : Formula) : ReadsAs e.text e.tree := by
  have h := (reads_pieces e []).weaken (two_le_rank e)
  rw [List.append_nil] at h
  exact readsAs_of_reads e.map_forget_tokens_text h

end Monkey
