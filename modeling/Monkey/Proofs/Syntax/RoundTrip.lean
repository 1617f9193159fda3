import Monkey.Proofs.Syntax.Separated
import Monkey.Proofs.Value.Relocate

/-!
# Canonical texts are read back

The canonical text of a faithful program is read without complaints as the program, apart from
the places of tokens.  One token may be another one: an expression that stands as a statement
keeps the first token of the statement, and that of the canonical text may be a parenthesis where
the program was read from a text without it.

## Main definitions

* `Node.restated` — a statement with the token that its canonical text begins with.

## Main results

* `Node.Faithful.reads` — a faithful expression is a phrase, whatever stands around it.
* `parse_text_of_faithful` — canonical texts are read back.
* `statement_token_of_text` — the token of a statement may change.
-/

namespace Monkey

namespace Node

open Phrase (Reads unaryRank operandRank)
open Piece (row)
open Formula

variable {n : Node} {ns : List Node}

/-! ### Expressions -/

/-- The tree with its tokens at no place is a phrase for every rank, whatever follows its
pieces. -/
def ReadsBack (n : Node) : Prop :=
  ∀ least rest,
    Reads (.expression least (n.mapTokens Relocation.forget.move)) (row n.pieces ++ rest) rest

theorem reads_separated (h : ∀ n ∈ ns, n.ReadsBack) (rest : List Token) :
    Reads (.items (mapTokensAll Relocation.forget.move ns))
      (row (separated (piecesAll ns)) ++ rest) rest := by
  have hitems := reads_items_separated
    (ns.map fun n => (n.pieces, n.mapTokens Relocation.forget.move)) ?_ rest
  · rw [List.map_map, List.map_map] at hitems
    rw [mapTokensAll_eq_map, piecesAll_eq_map]
    exact hitems
  · intro x hx
    obtain ⟨n, hn, rfl⟩ := List.mem_map.mp hx
    exact h n hn 2

theorem reads_pairs {ps : List (Node × Node)} (hk : ∀ p ∈ ps, p.1.ReadsBack)
    (hv : ∀ p ∈ ps, p.2.ReadsBack) (rest : List Token) :
    Reads (.pairs (mapTokensPairs Relocation.forget.move ps))
      (row (separated (pairPieces ps)) ++ rest) rest := by
  have hpairs := reads_pairs_separated (ps.map fun p =>
    (p.1.pieces ++ .lexeme (.plain .colon [':']) :: p.2.pieces,
      (p.1.mapTokens Relocation.forget.move, p.2.mapTokens Relocation.forget.move))) ?_ rest
  · rw [List.map_map, List.map_map] at hpairs
    rw [mapTokensPairs_eq_map, pairPieces_eq_map]
    exact hpairs
  · intro x hx rest
    obtain ⟨p, hp, rfl⟩ := List.mem_map.mp hx
    dsimp only
    rw [row_append_lexeme]
    exact .pair (hk p hp 2 _) rfl (hv p hp 2 rest)

/-- A faithful expression is a phrase, whatever stands around it: operations stand in parentheses,
and everything else is no operation. -/
theorem Faithful.reads (h : Faithful n) : n.ReadsBack := by
  -- in each case the pieces are turned into tokens, and the phrase is put together from the right
  induction h with
  | identifier w ht =>
    intro least rest
    rw [pieces, row_token]
    exact .simple (.identifier (Token.kind_of_lexeme ht))
  | @integer t d ht =>
    intro least rest
    have htoken : Relocation.forget.move t = d.lexeme.unplaced := by
      rw [← Token.unplaced_lexeme, ht]
    rw [pieces, row_token, mapTokens, htoken]
    exact .simple (reads_numeral d rest)
  | boolean b ht =>
    intro least rest
    have hkind := Token.kind_of_lexeme ht
    rw [pieces, row_token]
    cases b with
    | true => exact .simple (.true hkind)
    | false => exact .simple (.false hkind)
  | @prefixed t right s ht _ ih =>
    intro least rest
    have operator : Grammar.IsPrefix (Relocation.forget.move t).kind := by
      rw [Token.kind_of_lexeme ht]
      exact kind_sign s
    have operand := ih unaryRank ((Lexeme.plain .rparen [')']).unplaced :: rest)
    rw [pieces, Piece.row_lexeme, row_token, List.cons_append, List.cons_append,
      row_append_lexeme]
    exact .simple (.grouped rfl (.prefixed (by decide) operator operand) rfl)
  | @infixed t left right op ht _ _ ihl ihr =>
    intro least rest
    have operator : Grammar.IsInfix (Relocation.forget.move t).kind := by
      rw [Token.kind_of_lexeme ht]
      exact (kind_operator op).1
    obtain ⟨tight, -⟩ := Phrase.rank_of_isInfix operator
    have second := ihr ((Level.ofKind (Relocation.forget.move t).kind).rank + 1)
      ((Lexeme.plain .rparen [')']).unplaced :: rest)
    rw [pieces, Piece.row_lexeme, Piece.row_append, Piece.row_blank, row_token, Piece.row_blank,
      List.cons_append, List.append_assoc, List.cons_append, row_append_lexeme]
    exact .simple (.grouped rfl (.infixed tight (ihl _ _) operator second) rfl)
  | call ht _ _ ihf ihas =>
    intro least rest
    have arguments := reads_separated ihas ((Lexeme.plain .rparen [')']).unplaced :: rest)
    rw [pieces, row_append_lexeme, row_append_lexeme, Token.unplaced_lexeme]
    exact .call (ihf _ _) (Token.kind_of_lexeme ht) arguments rfl
  | array ht _ ihes =>
    intro least rest
    have elements := reads_separated ihes ((Lexeme.plain .rbracket [']']).unplaced :: rest)
    rw [pieces, row_token, List.cons_append, row_append_lexeme]
    exact .simple (.array (Token.kind_of_lexeme ht) elements rfl)
  | hash ht _ _ ihks ihvs =>
    intro least rest
    have entries := reads_pairs ihks ihvs ((Lexeme.plain .rbrace ['\x7d']).unplaced :: rest)
    rw [pieces, row_token, List.cons_append, row_append_lexeme]
    exact .simple (.hash (Token.kind_of_lexeme ht) entries rfl)
  | index ht _ _ ihl ihi =>
    intro least rest
    have subscript := ihi 2 ((Lexeme.plain .rbracket [']']).unplaced ::
      (Lexeme.plain .rparen [')']).unplaced :: rest)
    rw [pieces, Piece.row_lexeme, List.cons_append, row_append_lexeme, row_append_lexeme,
      Token.unplaced_lexeme]
    exact .simple (.grouped rfl (.index (ihl _ _) (Token.kind_of_lexeme ht) subscript rfl) rfl)

/-! ### Programs -/

/-- A statement as it is read from its canonical text: an expression that stands alone has the
first token of that. -/
def restated : Node → Node
  | expressionStatement t e => expressionStatement ((tokens e.text).headD t) e
  | n => n

theorem text_restated (n : Node) : n.restated.text = n.text := by
  cases n <;> rfl

/-- The text that a readable layout makes has the tokens of the layout. -/
theorem map_forget_tokens_of_render {ps : List Piece} {text : String} (h : Readable ps)
    (hr : Piece.render ps = text.toList) :
    (tokens text).map Relocation.forget.move = row ps := by
  have htokens := map_forget_tokens h
  rw [hr, String.ofList_toList] at htokens
  exact htokens

theorem Faithful.map_forget_tokens_text (h : Faithful n) :
    (tokens n.text).map Relocation.forget.move = row n.pieces := by
  have hreadable := h.continuable [] (by rintro _ ⟨⟩) trivial
  rw [List.append_nil] at hreadable
  exact map_forget_tokens_of_render hreadable h.render_pieces

/-- The statement of an expression alone begins with the first token of its text. -/
theorem Faithful.reads_statement (h : Faithful n) (t : Token) :
    Reads (.statements [(restated (.expressionStatement t n)).mapTokens Relocation.forget.move])
      (row n.pieces) [] := by
  have hreads := h.reads 2 []
  have htokens := h.map_forget_tokens_text
  rw [List.append_nil] at hreads
  obtain ⟨first, others, hrow, -⟩ := Phrase.begun_of_reads hreads
  have hfirst : Relocation.forget.move ((tokens n.text).headD t) = first := by
    rw [hrow] at htokens
    obtain ⟨u, us, hu, rfl, -⟩ := List.map_eq_cons_iff.mp htokens
    rw [hu]
    rfl
  rw [restated, mapTokens, hfirst]
  rw [hrow] at hreads ⊢
  exact .unended (.expressionSentence hreads) (fun hne => absurd rfl hne) .none

theorem FaithfulRow.reads (h : FaithfulRow ns) :
    Reads (.statements (mapTokensAll Relocation.forget.move (ns.map restated)))
      (row (piecesAll ns).flatten) [] := by
  induction h with
  | none => exact .none
  | @last t e he =>
    simp only [piecesAll, List.flatten_cons, List.flatten_nil, List.append_nil]
    exact he.reads_statement t
  | @letStatement t name value ns w ht hn hv _ ih =>
    have first := hv.reads 2 ((Lexeme.plain .semicolon [';']).unplaced ::
      row (piecesAll ns).flatten)
    simp only [piecesAll, List.flatten_cons, pieces, Piece.row_lexeme, Piece.row_blank,
      Token.unplaced_lexeme, Piece.row_append, List.append_assoc, List.cons_append,
      List.nil_append]
    exact .ended (.letSentence (Token.kind_of_lexeme ht) (Token.kind_of_lexeme hn) rfl first) rfl ih
  | @returnStatement t value ns ht hv _ ih =>
    have first := hv.reads 2 ((Lexeme.plain .semicolon [';']).unplaced ::
      row (piecesAll ns).flatten)
    simp only [piecesAll, List.flatten_cons, pieces, Piece.row_lexeme, Piece.row_blank,
      Token.unplaced_lexeme, Piece.row_append, List.append_assoc, List.cons_append,
      List.nil_append]
    exact .ended (.returnSentence (Token.kind_of_lexeme ht) first) rfl ih

end Node

open Node
open Phrase (Reads)

/-- **Canonical texts are read back.**  The text of a faithful program is read at every depth
greater than the number of its tokens.  Whenever it is read, there is no complaint, and what is
read is the program up to the places of tokens, where an expression that stands alone has the
first token of its text; so its text is the same one. -/
theorem parse_text_of_faithful {ns : List Node} (h : FaithfulRow ns) :
    (∀ depth, (tokens (program ns).text).length < depth →
      (parse depth (program ns).text).isSome) ∧
    ∀ depth p, parse depth (program ns).text = some p →
      p.complaints = [] ∧
      p.program.mapTokens Relocation.forget.move =
        (program (ns.map restated)).mapTokens Relocation.forget.move ∧
      p.program.text = (program ns).text := by
  refine ⟨fun depth => isSome_parse, fun depth p hp => ?_⟩
  have htokens := map_forget_tokens_of_render h.readable h.render_pieces
  obtain ⟨hprogram, hclean⟩ := mapTokens_parse_of_reads hp (htokens.symm ▸ h.reads)
  refine ⟨hclean, hprogram, ?_⟩
  -- texts do not depend on places, nor on the tokens of statements
  have htext : (program (ns.map restated)).text = (program ns).text := by
    rw [text, text, texts_eq_map, texts_eq_map, List.map_map]
    exact congrArg String.join (List.map_congr_left fun n _ => text_restated n)
  calc p.program.text
      = (p.program.mapTokens Relocation.forget.move).text := (text_mapTokens .forget _).symm
    _ = ((program (ns.map restated)).mapTokens Relocation.forget.move).text :=
      congrArg text hprogram
    _ = (program (ns.map restated)).text := text_mapTokens .forget _
    _ = (program ns).text := htext

/-- A binding of `7`, and behind it a sum. -/
theorem parse_text_of_faithful_sum :
    ∃ ns p, FaithfulRow ns ∧ (program ns).text = "let a = 7;(a + 7)" ∧
      parse 20 "let a = 7;(a + 7)" = some p ∧ p.complaints = [] ∧
      p.program.mapTokens Relocation.forget.move =
        (program (ns.map restated)).mapTokens Relocation.forget.move ∧
      p.program.text = "let a = 7;(a + 7)" := by
  have hname : Faithful (.identifier ⟨.ident, "a", 1, 1⟩ "a") :=
    .identifier ⟨'a', [], by decide, List.forall_mem_nil _, by decide⟩ rfl
  have hseven : Faithful (.integer ⟨.int, "7", 1, 1⟩ 7) :=
    .integer ⟨'7', [], by decide, List.forall_mem_nil _, by decide, by decide⟩ rfl
  have hrow : FaithfulRow [
      .letStatement ⟨.letWord, "let", 1, 1⟩ (.identifier ⟨.ident, "a", 1, 1⟩ "a") _,
      .expressionStatement ⟨.ident, "a", 1, 1⟩ (.infixed ⟨.plus, "+", 1, 1⟩ _ "+" _)] :=
    .letStatement ⟨'a', [], by decide, List.forall_mem_nil _, by decide⟩ rfl rfl hseven
      (.last (.infixed .plus rfl hname hseven))
  obtain ⟨hsome, hread⟩ := parse_text_of_faithful hrow
  obtain ⟨p, hp⟩ := Option.isSome_iff_exists.mp (hsome 20 (by decide +kernel))
  obtain ⟨hclean, hprogram, htext⟩ := hread 20 p hp
  exact ⟨_, p, hrow, rfl, hp, hclean, hprogram, htext⟩

/-- An operation with two integers is an expression, whatever follows it. -/
theorem reads_infixed_integers {l op r : Token} {rest : List Token} (hl : l.kind = .int)
    (hlr : Grammar.InRange l) (hop : Grammar.IsInfix op.kind) (hr : r.kind = .int)
    (hrr : Grammar.InRange r) :
    Reads (.expression 2 (.infixed op (.integer l (Nat.ofDigitChars 10 l.literal.toList 0))
      op.literal (.integer r (Nat.ofDigitChars 10 r.literal.toList 0))))
      (l :: op :: r :: rest) rest :=
  .infixed (Phrase.rank_of_isInfix hop).1 (.simple (.integer hl hlr)) hop
    (.simple (.integer hr hrr))

/-- The token of a statement changes where its canonical text begins with a parenthesis: the sum
of `1` and `2` is read with the token of `1`, and that of its text with a parenthesis. -/
theorem statement_token_of_text :
    ∃ ns p, parse 9 "1 + 2" = some ⟨program ns, []⟩ ∧ FaithfulRow ns ∧
      (program ns).text = "(1 + 2)" ∧ parse 9 "(1 + 2)" = some p ∧
      p.program.mapTokens Relocation.forget.move ≠
        (program ns).mapTokens Relocation.forget.move := by
  have htokens : tokens "1 + 2" = [⟨.int, "1", 1, 1⟩, ⟨.plus, "+", 1, 3⟩, ⟨.int, "2", 1, 5⟩] := by
    decide +kernel
  have htokens' : tokens "(1 + 2)" = [⟨.lparen, "(", 1, 1⟩, ⟨.int, "1", 1, 2⟩, ⟨.plus, "+", 1, 4⟩,
      ⟨.int, "2", 1, 6⟩, ⟨.rparen, ")", 1, 7⟩] := by
    decide +kernel
  have hreads : Reads (.statements [_])
      [⟨.int, "1", 1, 1⟩, ⟨.plus, "+", 1, 3⟩, ⟨.int, "2", 1, 5⟩] [] :=
    .unended (.expressionSentence
      (reads_infixed_integers rfl ⟨by decide, by decide⟩ (by decide) rfl ⟨by decide, by decide⟩))
      (fun hne => absurd rfl hne) .none
  have hreads' : Reads (.statements [_]) [⟨.lparen, "(", 1, 1⟩, ⟨.int, "1", 1, 2⟩,
      ⟨.plus, "+", 1, 4⟩, ⟨.int, "2", 1, 6⟩, ⟨.rparen, ")", 1, 7⟩] [] :=
    .unended (.expressionSentence (.simple (.grouped rfl
      (reads_infixed_integers rfl ⟨by decide, by decide⟩ (by decide) rfl ⟨by decide, by decide⟩)
      rfl)))
      (fun hne => absurd rfl hne) .none
  have hsome : (parse 9 "1 + 2").isSome := isSome_parse (htokens ▸ by decide)
  have hsome' : (parse 9 "(1 + 2)").isSome := isSome_parse (htokens' ▸ by decide)
  obtain ⟨p, hp⟩ := Option.isSome_iff_exists.mp hsome
  obtain ⟨p', hp'⟩ := Option.isSome_iff_exists.mp hsome'
  obtain rfl := parse_eq_of_reads hp (htokens ▸ hreads)
  obtain rfl := parse_eq_of_reads hp' (htokens' ▸ hreads')
  refine ⟨_, _, hp, ?_, rfl, hp', ?_⟩
  · exact .last (.infixed .plus rfl
      (.integer ⟨'1', [], by decide, List.forall_mem_nil _, by decide, by decide⟩ rfl)
      (.integer ⟨'2', [], by decide, List.forall_mem_nil _, by decide, by decide⟩ rfl))
  · intro heq
    injection heq with heq
    injection heq with heq
    injection heq with heq
    exact absurd heq (by decide)

end Monkey
