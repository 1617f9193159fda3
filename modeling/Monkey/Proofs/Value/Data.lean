import Monkey.Proofs.Syntax.Separated
import Monkey.Proofs.Value.Relocate

/-!
# Data

The values whose text is an expression of the language that says what they are: integers, truth
values, and arrays and hashes of them.  A negative integer is written with the minus in front, so
the least integer is left out, whose digits spell none.  The text of data is laid out in pieces
that are read as one expression.

## Main definitions

* `Value.content` — what a value is apart from identities.
* `Value.IsData` — the values whose text says what they are.
* `Value.pieces`, `Value.tree` — the layout of their text, and the tree that it is read as.

## Main results

* `Value.IsData.render_pieces` — the pieces make the text.
* `Value.IsData.readsAs_inspect` — the text is read as the tree.
-/

namespace Monkey

namespace Value

/-! ### Contents -/

mutual

/-- The content of a value: identities are forgotten, and what a function is made of. -/
def content : Value → Value
  | array _ elements => array 0 (contents elements)
  | hash _ entries => hash 0 (entryContents entries)
  | function .. => function 0 [] .missing 0
  | returned _ v => returned 0 (content v)
  | error _ fault => error 0 fault
  | v => v

/-- The contents of some values. -/
def contents : List Value → List Value
  | [] => []
  | v :: vs => content v :: contents vs

/-- The contents of the entries of a hash. -/
def entryContents : List (Value × Value) → List (Value × Value)
  | [] => []
  | (k, v) :: es => (content k, content v) :: entryContents es

end

theorem entryContents_eq_map (es : List (Value × Value)) :
    entryContents es = es.map (Prod.map content content) := by
  induction es with
  | nil => rfl
  | cons e es ih => rw [entryContents, List.map_cons, ih, Prod.map]

mutual

/-- Tokens are no part of the content. -/
theorem content_mapTokens (f : Token → Token) :
    ∀ v : Value, (v.mapTokens f).content = v.content
  | integer _ | boolean _ | null | string _ | function .. | builtin _ | error .. => rfl
  | array _ elements => congrArg (array 0) (contents_mapTokensAll f elements)
  | hash _ entries => congrArg (hash 0) (entryContents_mapTokensEntries f entries)
  | returned _ v => congrArg (returned 0) (content_mapTokens f v)

theorem contents_mapTokensAll (f : Token → Token) :
    ∀ vs : List Value, contents (mapTokensAll f vs) = contents vs
  | [] => rfl
  | v :: vs => by
    rw [mapTokensAll, contents, contents, content_mapTokens f v, contents_mapTokensAll f vs]

theorem entryContents_mapTokensEntries (f : Token → Token) :
    ∀ es : List (Value × Value), entryContents (mapTokensEntries f es) = entryContents es
  | [] => rfl
  | (k, v) :: es => by
    rw [mapTokensEntries, entryContents, entryContents, content_mapTokens f k,
      content_mapTokens f v, entryContents_mapTokensEntries f es]

end

/-! ### Data -/

/-- Integers, truth values, and arrays and hashes of data.  The keys of a hash are integers or
truth values, and no two of them are the same. -/
inductive IsData : Value → Prop
  | integer {n : Int} (low : -0x7fffffffffffffff ≤ n) (high : n ≤ 0x7fffffffffffffff) :
    IsData (.integer n)
  | boolean (b : Bool) : IsData (.boolean b)
  | array (id : Identity) {elements : List Value} (data : ∀ v ∈ elements, IsData v) :
    IsData (.array id elements)
  | hash (id : Identity) {entries : List (Value × Value)} (keys : ∀ e ∈ entries, IsData e.1)
    (usable : ∀ e ∈ entries, e.1.key?.isSome) (values : ∀ e ∈ entries, IsData e.2)
    (distinct : (entries.map fun e => e.1.key?).Nodup) : IsData (.hash id entries)

/-- The lexeme of the digits of a number. -/
def digits (n : Nat) : Lexeme := .plain .int (Nat.toDigits 10 n)

mutual

/-- The pieces of the text of a value, as far as it is data. -/
def pieces : Value → List Piece
  | integer n =>
    if n < 0 then [.lexeme (.plain .minus ['-']), .lexeme (digits n.natAbs)]
    else [.lexeme (digits n.natAbs)]
  | boolean b => [.lexeme (Formula.booleanLexeme b)]
  | array _ elements =>
    .lexeme (.plain .lbracket ['[']) ::
      (separated (piecesAll elements) ++ [.lexeme (.plain .rbracket [']'])])
  | hash _ entries =>
    .lexeme (.plain .lbrace ['\x7b']) ::
      (separated (entryPieces entries) ++ [.lexeme (.plain .rbrace ['\x7d'])])
  | _ => []

/-- The pieces of some values. -/
def piecesAll : List Value → List (List Piece)
  | [] => []
  | v :: vs => pieces v :: piecesAll vs

/-- The pieces of the entries of a hash. -/
def entryPieces : List (Value × Value) → List (List Piece)
  | [] => []
  | (k, v) :: es =>
    (pieces k ++ .lexeme (.plain .colon [':']) :: .blank ' ' :: pieces v) :: entryPieces es

end

mutual

/-- The syntax tree of a value, as far as it is data, with its tokens at no place. -/
def tree : Value → Node
  | integer n =>
    if n < 0 then .prefixed (Lexeme.plain .minus ['-']).unplaced "-"
      (.integer (digits n.natAbs).unplaced n.natAbs)
    else .integer (digits n.natAbs).unplaced n.natAbs
  | boolean b => .boolean (Formula.booleanLexeme b).unplaced b
  | array _ elements => .array (Lexeme.plain .lbracket ['[']).unplaced (trees elements)
  | hash _ entries => .hash (Lexeme.plain .lbrace ['\x7b']).unplaced (entryTrees entries)
  | _ => .missing

/-- The syntax trees of some values. -/
def trees : List Value → List Node
  | [] => []
  | v :: vs => tree v :: trees vs

/-- The syntax trees of the entries of a hash. -/
def entryTrees : List (Value × Value) → List (Node × Node)
  | [] => []
  | (k, v) :: es => (tree k, tree v) :: entryTrees es

end

theorem piecesAll_eq_map (vs : List Value) : piecesAll vs = vs.map pieces := by
  induction vs with
  | nil => rfl
  | cons v vs ih => rw [piecesAll, List.map_cons, ih]

theorem entryPieces_eq_map (es : List (Value × Value)) : entryPieces es = es.map fun e =>
    e.1.pieces ++ .lexeme (.plain .colon [':']) :: .blank ' ' :: e.2.pieces := by
  induction es with
  | nil => rfl
  | cons e es ih => rw [entryPieces, List.map_cons, ih]

theorem trees_eq_map (vs : List Value) : trees vs = vs.map tree := by
  induction vs with
  | nil => rfl
  | cons v vs ih => rw [trees, List.map_cons, ih]

theorem entryTrees_eq_map (es : List (Value × Value)) :
    entryTrees es = es.map fun e => (e.1.tree, e.2.tree) := by
  induction es with
  | nil => rfl
  | cons e es ih => rw [entryTrees, List.map_cons, ih]

variable {v : Value}

/-! ### Integers -/

theorem exists_numeral {n : Int} (low : -0x7fffffffffffffff ≤ n)
    (high : n ≤ 0x7fffffffffffffff) :
    ∃ d : Numeral, d.lexeme = digits n.natAbs ∧ d.value = n.natAbs := by
  obtain ⟨d, hd, hvalue⟩ := Numeral.exists_of_le (n := n.natAbs) (by omega)
  exact ⟨d, congrArg (Lexeme.plain .int) hd, hvalue⟩

/-- An integer is written as its digits, with the minus in front if it is negative. -/
theorem toList_toString (n : Int) :
    (toString n).toList = if n < 0 then '-' :: Nat.toDigits 10 n.natAbs
      else Nat.toDigits 10 n.natAbs := by
  cases n with
  | ofNat m =>
    have hnot : ¬ Int.ofNat m < 0 := Int.not_lt.mpr (Int.natCast_nonneg m)
    rw [if_neg hnot]
    exact String.toList_ofList
  | negSucc m =>
    rw [if_pos (Int.negSucc_lt_zero m)]
    have h : toString (Int.negSucc m) = "-" ++ String.ofList (Nat.toDigits 10 (m + 1)) := rfl
    rw [h, String.toList_append, String.toList_ofList (l := Nat.toDigits 10 (m + 1))]
    rfl

/-! ### The pieces make the text -/

theorem IsData.render_pieces (h : v.IsData) : Piece.render v.pieces = v.inspect.toList := by
  induction h with
  | @integer n low high =>
    rw [inspect, toList_toString, pieces]
    split
    · simp only [Piece.render_cons, Piece.render_nil, Piece.chars, List.append_nil]
      rfl
    · simp only [Piece.render_cons, Piece.render_nil, Piece.chars, List.append_nil]
      rfl
  | boolean b => cases b <;> rfl
  | @array id elements _ ih =>
    have hall : (piecesAll elements).map Piece.render =
        (inspectAll elements).map String.toList := by
      rw [piecesAll_eq_map, inspectAll_eq_map, List.map_map, List.map_map]
      exact List.map_congr_left ih
    simp only [pieces, inspect, Piece.render_cons, Piece.render_append, Piece.render_nil,
      render_separated, hall, String.toList_append, String.toList_intercalate, Piece.chars,
      List.append_nil]
    rfl
  | @hash id entries _ _ _ _ ihk ihv =>
    have hall : (entryPieces entries).map Piece.render =
        (inspectEntries entries).map String.toList := by
      rw [entryPieces_eq_map, inspectEntries_eq_map, List.map_map, List.map_map]
      refine List.map_congr_left fun e he => ?_
      simp only [Function.comp_apply, Piece.render_append, Piece.render_cons, Piece.chars, ihk e he,
        ihv e he, String.toList_append, List.append_assoc]
      rfl
    simp only [pieces, inspect, Piece.render_cons, Piece.render_append, Piece.render_nil,
      render_separated, hall, String.toList_append, String.toList_intercalate, Piece.chars,
      List.append_nil]
    rfl

/-! ### The pieces are read -/

open Formula

theorem IsData.continuable (h : v.IsData) : Continuable v.pieces := by
  induction h with
  | @integer n low high =>
    intro qs hq hqs
    obtain ⟨d, hd, -⟩ := exists_numeral low high
    have number : Readable (.lexeme (digits n.natAbs) :: qs) :=
      ⟨hd ▸ standsBefore_lexeme_numeral d hq, hqs⟩
    rw [pieces]
    split
    · exact readable_delimiter rfl (by decide) (by decide) number
    · exact number
  | boolean b => exact fun qs hq hqs => ⟨standsBefore_booleanLexeme b hq, hqs⟩
  | @array id elements _ ih =>
    intro qs hq hqs
    have hall : Continuable (separated (piecesAll elements)) := by
      refine continuable_separated fun ps hps => ?_
      rw [piecesAll_eq_map] at hps
      obtain ⟨v, hv, rfl⟩ := List.mem_map.mp hps
      exact ih v hv
    rw [pieces, List.cons_append, List.append_assoc]
    exact readable_delimiter rfl (by decide) (by decide)
      (hall.readable rfl (by decide) (by decide) hqs)
  | @hash id entries _ _ _ _ ihk ihv =>
    intro qs hq hqs
    have hall : Continuable (separated (entryPieces entries)) := by
      refine continuable_separated fun ps hps => ?_
      rw [entryPieces_eq_map] at hps
      obtain ⟨e, he, rfl⟩ := List.mem_map.mp hps
      intro qs hq hqs
      rw [List.append_assoc]
      exact (ihk e he).readable rfl (by decide) (by decide) ⟨rfl, ihv e he qs hq hqs⟩
    rw [pieces, List.cons_append, List.append_assoc]
    exact readable_delimiter rfl (by decide) (by decide)
      (hall.readable rfl (by decide) (by decide) hqs)

open Phrase (Reads)
open Piece (row)

theorem IsData.isItem (h : v.IsData) : IsItem (v.pieces, v.tree) := by
  induction h with
  | @integer n low high =>
    intro rest
    obtain ⟨d, hd, hvalue⟩ := exists_numeral low high
    have number := reads_numeral d rest
    rw [hd, hvalue] at number
    dsimp only
    rw [pieces, tree]
    split
    · exact .prefixed (by decide) (by decide) (.simple number)
    · exact .simple number
  | boolean b =>
    intro rest
    cases b with
    | true => exact .simple (.true rfl)
    | false => exact .simple (.false rfl)
  | @array id elements _ ih =>
    intro rest
    have items := reads_items_separated (elements.map fun v => (v.pieces, v.tree)) ?_
      ((Lexeme.plain .rbracket [']']).unplaced :: rest)
    · rw [List.map_map, List.map_map] at items
      dsimp only
      rw [pieces, tree, Piece.row_lexeme, List.cons_append, row_append_lexeme, piecesAll_eq_map,
        trees_eq_map]
      exact .simple (.array rfl items rfl)
    · intro x hx
      obtain ⟨v, hv, rfl⟩ := List.mem_map.mp hx
      exact ih v hv
  | @hash id entries _ _ _ _ ihk ihv =>
    intro rest
    have pairs := reads_pairs_separated (entries.map fun e =>
      (e.1.pieces ++ .lexeme (.plain .colon [':']) :: .blank ' ' :: e.2.pieces,
        (e.1.tree, e.2.tree))) ?_ ((Lexeme.plain .rbrace ['\x7d']).unplaced :: rest)
    · rw [List.map_map, List.map_map] at pairs
      dsimp only
      rw [pieces, tree, Piece.row_lexeme, List.cons_append, row_append_lexeme, entryPieces_eq_map,
        entryTrees_eq_map]
      exact .simple (.hash rfl pairs rfl)
    · intro x hx rest
      obtain ⟨e, he, rfl⟩ := List.mem_map.mp hx
      dsimp only
      rw [row_append_lexeme, Piece.row_blank]
      exact .pair (ihk e he _) rfl (ihv e he rest)

/-- The text of data is read as its tree. -/
theorem IsData.readsAs_inspect (h : v.IsData) : ReadsAs v.inspect v.tree := by
  have hreadable := h.continuable [] (by rintro _ ⟨⟩) trivial
  rw [List.append_nil] at hreadable
  have htokens := map_forget_tokens hreadable
  rw [h.render_pieces, String.ofList_toList] at htokens
  have hreads := h.isItem []
  rw [List.append_nil] at hreads
  exact readsAs_of_reads htokens hreads

end Value

end Monkey
