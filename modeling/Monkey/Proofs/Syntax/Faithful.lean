import Monkey.Proofs.Syntax.Printed
import Monkey.Syntax.Text

/-!
# Trees with a faithful text

The canonical text of a tree says nothing about some trees: strings stand in it without quotes,
and blocks without braces.  It is faithful for names, integers and truth values under operators,
calls, subscripts, arrays and hashes, when every node keeps a token as the parser gives it; and
for programs of such expressions bound by `let` or returned, with one more at the end at most.
The canonical text of such a tree is laid out in pieces that are read as its tokens.

## Main definitions

* `Node.Faithful`, `Node.FaithfulRow` — the expressions, and the rows of statements.
* `Node.pieces` — the pieces of the canonical text.

## Main results

* `Node.Faithful.render_pieces`, `Node.FaithfulRow.render_pieces` — the pieces make the text.
* `Node.Faithful.continuable`, `Node.FaithfulRow.readable` — they are read as they are.
-/

namespace Monkey

/-- The lexeme that is spelled as a token is. -/
def Token.lexeme (t : Token) : Lexeme := .plain t.kind t.literal.toList

theorem Token.unplaced_lexeme (t : Token) : t.lexeme.unplaced = Relocation.forget.move t := by
  rw [Token.lexeme, Lexeme.unplaced, Lexeme.token, Lexeme.plain, String.ofList_toList]
  rfl

theorem Token.kind_of_lexeme {t : Token} {l : Lexeme} (h : t.lexeme = l) :
    (Relocation.forget.move t).kind = l.kind :=
  congrArg Lexeme.kind h

/-! ### Pieces with commas in between -/

/-- Some rows of pieces with a comma and a blank in between. -/
def separated : List (List Piece) → List Piece
  | [] => []
  | [ps] => ps
  | ps :: qs :: pss => ps ++ .lexeme (.plain .comma [',']) :: .blank ' ' :: separated (qs :: pss)

theorem render_separated (pss : List (List Piece)) :
    Piece.render (separated pss) = ", ".toList.intercalate (pss.map Piece.render) := by
  induction pss with
  | nil => rfl
  | cons ps pss ih =>
    cases pss with
    | nil =>
      rw [separated, List.map_singleton, List.intercalate_singleton]
    | cons qs pss =>
      rw [separated, Piece.render_append, Piece.render_cons, Piece.render_cons, ih]
      simp only [List.map_cons, List.intercalate_cons_cons, List.append_assoc]
      rfl

open Formula in
theorem continuable_separated {pss : List (List Piece)} (h : ∀ ps ∈ pss, Continuable ps) :
    Continuable (separated pss) := by
  induction pss with
  | nil => exact fun qs _ hqs => hqs
  | cons ps pss ih =>
    obtain ⟨hps, hpss⟩ := List.forall_mem_cons.mp h
    cases pss with
    | nil => exact hps
    | cons ps' pss =>
      intro qs hq hqs
      rw [separated, List.append_assoc]
      exact hps.readable rfl (by decide) (by decide) ⟨rfl, ih hpss qs hq hqs⟩

namespace Node

/-! ### Faithful trees -/

open Formula (Sign Operator booleanLexeme)

/-- Expressions of names, integers and truth values, with tokens as the parser gives them. -/
inductive Faithful : Node → Prop
  | identifier {t : Token} (w : Word) (ht : t.lexeme = w.lexeme) :
    Faithful (.identifier t t.literal)
  | integer {t : Token} (d : Numeral) (ht : t.lexeme = d.lexeme) : Faithful (.integer t d.value)
  | boolean {t : Token} (b : Bool) (ht : t.lexeme = booleanLexeme b) : Faithful (.boolean t b)
  | prefixed {t : Token} {right : Node} (s : Sign) (ht : t.lexeme = s.lexeme)
    (hr : Faithful right) : Faithful (.prefixed t t.literal right)
  | infixed {t : Token} {left right : Node} (op : Operator) (ht : t.lexeme = op.lexeme)
    (hl : Faithful left) (hr : Faithful right) : Faithful (.infixed t left t.literal right)
  | call {t : Token} {callee : Node} {arguments : List Node}
    (ht : t.lexeme = .plain .lparen ['(']) (hf : Faithful callee)
    (has : ∀ a ∈ arguments, Faithful a) : Faithful (.call t callee arguments)
  | array {t : Token} {elements : List Node} (ht : t.lexeme = .plain .lbracket ['['])
    (hes : ∀ e ∈ elements, Faithful e) : Faithful (.array t elements)
  | hash {t : Token} {pairs : List (Node × Node)} (ht : t.lexeme = .plain .lbrace ['\x7b'])
    (hks : ∀ p ∈ pairs, Faithful p.1) (hvs : ∀ p ∈ pairs, Faithful p.2) :
    Faithful (.hash t pairs)
  | index {t : Token} {left subscript : Node} (ht : t.lexeme = .plain .lbracket ['['])
    (hl : Faithful left) (hi : Faithful subscript) : Faithful (.index t left subscript)

/-- The statements of a program: any number of `let` and `return`, and behind them one expression
at most, which may keep any token. -/
inductive FaithfulRow : List Node → Prop
  | none : FaithfulRow []
  | last {t : Token} {e : Node} (he : Faithful e) : FaithfulRow [.expressionStatement t e]
  | letStatement {t name : Token} {value : Node} {ns : List Node} (w : Word)
    (ht : t.lexeme = .plain .letWord ['l', 'e', 't']) (hn : name.lexeme = w.lexeme)
    (hv : Faithful value) (others : FaithfulRow ns) :
    FaithfulRow (.letStatement t (.identifier name name.literal) value :: ns)
  | returnStatement {t : Token} {value : Node} {ns : List Node}
    (ht : t.lexeme = .plain .returnWord ['r', 'e', 't', 'u', 'r', 'n']) (hv : Faithful value)
    (others : FaithfulRow ns) : FaithfulRow (.returnStatement t value :: ns)

/-! ### Their layout -/

mutual

/-- The pieces of the canonical text of a tree, as far as it is faithful. -/
def pieces : Node → List Piece
  | identifier t _ | integer t _ | boolean t _ => [.lexeme t.lexeme]
  | prefixed t _ right =>
    .lexeme (.plain .lparen ['(']) :: .lexeme t.lexeme ::
      (pieces right ++ [.lexeme (.plain .rparen [')'])])
  | infixed t left _ right =>
    .lexeme (.plain .lparen ['(']) :: (pieces left ++ .blank ' ' :: .lexeme t.lexeme ::
      .blank ' ' :: (pieces right ++ [.lexeme (.plain .rparen [')'])]))
  | call t callee arguments =>
    pieces callee ++ .lexeme t.lexeme ::
      (separated (piecesAll arguments) ++ [.lexeme (.plain .rparen [')'])])
  | array t elements =>
    .lexeme t.lexeme :: (separated (piecesAll elements) ++ [.lexeme (.plain .rbracket [']'])])
  | hash t pairs =>
    .lexeme t.lexeme :: (separated (pairPieces pairs) ++ [.lexeme (.plain .rbrace ['\x7d'])])
  | index t left subscript =>
    .lexeme (.plain .lparen ['(']) :: (pieces left ++ .lexeme t.lexeme :: (pieces subscript ++
      [.lexeme (.plain .rbracket [']']), .lexeme (.plain .rparen [')'])]))
  | letStatement t name value =>
    .lexeme t.lexeme :: .blank ' ' :: (pieces name ++ .blank ' ' ::
      .lexeme (.plain .assign ['=']) :: .blank ' ' ::
        (pieces value ++ [.lexeme (.plain .semicolon [';'])]))
  | returnStatement t value =>
    .lexeme t.lexeme :: .blank ' ' :: (pieces value ++ [.lexeme (.plain .semicolon [';'])])
  | expressionStatement _ expression => pieces expression
  | _ => []

/-- The pieces of some trees. -/
def piecesAll : List Node → List (List Piece)
  | [] => []
  | n :: ns => pieces n :: piecesAll ns

/-- The pieces of the pairs of a hash. -/
def pairPieces : List (Node × Node) → List (List Piece)
  | [] => []
  | (key, value) :: pairs =>
    (pieces key ++ .lexeme (.plain .colon [':']) :: pieces value) :: pairPieces pairs

end

theorem piecesAll_eq_map (ns : List Node) : piecesAll ns = ns.map pieces := by
  induction ns with
  | nil => rfl
  | cons n ns ih => rw [piecesAll, List.map_cons, ih]

theorem pairPieces_eq_map (ps : List (Node × Node)) :
    pairPieces ps =
      ps.map fun p => pieces p.1 ++ .lexeme (.plain .colon [':']) :: pieces p.2 := by
  induction ps with
  | nil => rfl
  | cons p ps ih => rw [pairPieces, List.map_cons, ih]

variable {n : Node} {ns : List Node}

/-- The text of a row is laid out if that of every item is. -/
theorem render_piecesAll (h : ∀ n ∈ ns, Piece.render n.pieces = n.text.toList) :
    Piece.render (separated (piecesAll ns)) = (", ".intercalate (texts ns)).toList := by
  rw [render_separated, String.toList_intercalate, piecesAll_eq_map, texts_eq_map, List.map_map,
    List.map_map]
  exact congrArg _ (List.map_congr_left h)

theorem render_pairPieces {ps : List (Node × Node)}
    (hk : ∀ p ∈ ps, Piece.render p.1.pieces = p.1.text.toList)
    (hv : ∀ p ∈ ps, Piece.render p.2.pieces = p.2.text.toList) :
    Piece.render (separated (pairPieces ps)) = (", ".intercalate (pairTexts ps)).toList := by
  rw [render_separated, String.toList_intercalate, pairPieces_eq_map, pairTexts_eq_map,
    List.map_map, List.map_map]
  refine congrArg _ (List.map_congr_left fun p hp => ?_)
  simp only [Function.comp_apply, Piece.render_append, Piece.render_cons, hk p hp, hv p hp,
    String.toList_append, List.append_assoc]
  rfl

/-- The pieces of a faithful tree make its text. -/
theorem Faithful.render_pieces (h : Faithful n) : Piece.render n.pieces = n.text.toList := by
  induction h with
  | identifier w ht | integer d ht | boolean b ht => exact List.append_nil _
  | prefixed s ht _ ih =>
    simp only [pieces, text, Piece.render_cons, Piece.render_append, ih, String.toList_append,
      List.append_assoc]
    rfl
  | infixed op ht _ _ ihl ihr =>
    simp only [pieces, text, Piece.render_cons, Piece.render_append, ihl, ihr,
      String.toList_append, List.append_assoc]
    rfl
  | call ht _ _ ihf ihas =>
    simp only [pieces, text, Piece.render_cons, Piece.render_append, ihf, render_piecesAll ihas,
      String.toList_append, List.append_assoc, ht]
    rfl
  | array ht _ ihes =>
    simp only [pieces, text, Piece.render_cons, Piece.render_append, render_piecesAll ihes,
      String.toList_append, List.append_assoc, ht]
    rfl
  | hash ht _ _ ihks ihvs =>
    simp only [pieces, text, Piece.render_cons, Piece.render_append, render_pairPieces ihks ihvs,
      String.toList_append, List.append_assoc, ht]
    rfl
  | index ht _ _ ihl ihi =>
    simp only [pieces, text, Piece.render_cons, Piece.render_append, ihl, ihi,
      String.toList_append, List.append_assoc, ht]
    rfl

theorem FaithfulRow.render_pieces (h : FaithfulRow ns) :
    Piece.render (piecesAll ns).flatten = (program ns).text.toList := by
  rw [text, String.toList_join]
  induction h with
  | none => rfl
  | last he =>
    simp only [piecesAll, texts, List.flatten_cons, List.flatten_nil, List.append_nil,
      List.flatMap_cons, List.flatMap_nil]
    exact he.render_pieces
  | letStatement w ht hn hv _ ih =>
    rw [piecesAll, List.flatten_cons, Piece.render_append, ih, texts, List.flatMap_cons]
    refine congrArg (· ++ _) ?_
    simp only [pieces, text, Piece.render_cons, Piece.render_append, hv.render_pieces,
      String.toList_append, List.append_assoc]
    rfl
  | returnStatement ht hv _ ih =>
    rw [piecesAll, List.flatten_cons, Piece.render_append, ih, texts, List.flatMap_cons]
    refine congrArg (· ++ _) ?_
    simp only [pieces, text, Piece.render_cons, Piece.render_append, hv.render_pieces,
      String.toList_append, List.append_assoc]
    rfl

/-! ### How it is read -/

open Formula

/-- No faithful expression begins with an equals sign. -/
theorem Faithful.headed (h : Faithful n) : Headed n.pieces := by
  induction h with
  | identifier w ht =>
    refine ⟨w.first, w.others, ?_, ?_⟩
    · rw [pieces, ht]
      exact List.append_nil _
    · intro heq
      exact absurd (heq ▸ w.isLetter_first) (by decide)
  | integer d ht =>
    refine ⟨d.first, d.others, ?_, ?_⟩
    · rw [pieces, ht]
      exact List.append_nil _
    · intro heq
      exact absurd (heq ▸ d.isDigit_first) (by decide)
  | boolean b ht =>
    rw [pieces, ht]
    cases b <;> exact ⟨_, _, rfl, by decide⟩
  | prefixed | infixed | index => exact ⟨'(', _, rfl, by decide⟩
  | call _ _ _ ih => exact ih.append _
  | array ht =>
    rw [pieces, ht]
    exact ⟨'[', _, rfl, by decide⟩
  | hash ht =>
    rw [pieces, ht]
    exact ⟨'\x7b', _, rfl, by decide⟩

theorem continuable_piecesAll (h : ∀ n ∈ ns, Continuable n.pieces) :
    Continuable (separated (piecesAll ns)) := by
  rw [piecesAll_eq_map]
  exact continuable_separated (List.forall_mem_map.mpr h)

theorem continuable_pairPieces {ps : List (Node × Node)} (hk : ∀ p ∈ ps, Continuable p.1.pieces)
    (hv : ∀ p ∈ ps, Continuable p.2.pieces) : Continuable (separated (pairPieces ps)) := by
  rw [pairPieces_eq_map]
  refine continuable_separated (List.forall_mem_map.mpr fun p hp qs hq hqs => ?_)
  rw [List.append_assoc]
  exact (hk p hp).readable rfl (by decide) (by decide) (hv p hp qs hq hqs)

/-- A faithful expression may stand before everything that does not run on with a word. -/
theorem Faithful.continuable (h : Faithful n) : Continuable n.pieces := by
  induction h with
  | identifier w ht =>
    intro qs hq hqs
    rw [pieces, ht]
    exact ⟨standsBefore_lexeme_word w hq, hqs⟩
  | integer d ht =>
    intro qs hq hqs
    rw [pieces, ht]
    exact ⟨standsBefore_lexeme_numeral d hq, hqs⟩
  | boolean b ht =>
    intro qs hq hqs
    rw [pieces, ht]
    exact ⟨standsBefore_booleanLexeme b hq, hqs⟩
  | prefixed s ht hr ih =>
    intro qs hq hqs
    rw [pieces, ht, List.cons_append, List.cons_append, List.append_assoc]
    have hsign := standsBefore_sign s (hr.headed.append (.lexeme (.plain .rparen [')']) :: qs))
    refine readable_delimiter rfl (by decide) (by decide) ⟨hsign, ?_⟩
    exact ih.readable rfl (by decide) (by decide) hqs
  | infixed op ht _ _ ihl ihr =>
    intro qs hq hqs
    simp only [pieces, ht, List.cons_append, List.append_assoc]
    refine readable_delimiter rfl (by decide) (by decide) (ihl _ ?_ ?_)
    · -- a blank comes behind the left operand
      rintro _ ⟨⟩
      rfl
    · refine ⟨rfl, standsBefore_operator op _, rfl, ?_⟩
      exact ihr.readable rfl (by decide) (by decide) hqs
  | call ht _ _ ihf ihas =>
    intro qs hq hqs
    simp only [pieces, ht, List.cons_append, List.append_assoc]
    refine ihf.readable rfl (by decide) (by decide) ?_
    exact (continuable_piecesAll ihas).readable rfl (by decide) (by decide) hqs
  | array ht _ ihes =>
    intro qs hq hqs
    simp only [pieces, ht, List.cons_append, List.append_assoc]
    refine readable_delimiter rfl (by decide) (by decide) ?_
    exact (continuable_piecesAll ihes).readable rfl (by decide) (by decide) hqs
  | hash ht _ _ ihks ihvs =>
    intro qs hq hqs
    simp only [pieces, ht, List.cons_append, List.append_assoc]
    refine readable_delimiter rfl (by decide) (by decide) ?_
    exact (continuable_pairPieces ihks ihvs).readable rfl (by decide) (by decide) hqs
  | index ht _ _ ihl ihi =>
    intro qs hq hqs
    simp only [pieces, ht, List.cons_append, List.append_assoc]
    have hclose : Readable (.lexeme (.plain .rparen [')']) :: qs) :=
      readable_delimiter rfl (by decide) (by decide) hqs
    refine readable_delimiter rfl (by decide) (by decide) ?_
    refine ihl.readable rfl (by decide) (by decide) ?_
    exact ihi.readable rfl (by decide) (by decide) hclose

/-- A word of letters stands before a blank. -/
theorem standsBefore_blank {kind : Token.Kind} {c : Char} {cs rest : List Char}
    (hc : Token.isLetter c) (hcs : cs.all Token.isWordPart)
    (hk : Token.Kind.ofWord (String.ofList (c :: cs)) = kind) :
    (Lexeme.plain kind (c :: cs)).StandsBefore (' ' :: rest) := by
  rw [← hk]
  refine Lexeme.standsBefore_word hc (List.all_eq_true.mp hcs) ?_
  rintro _ ⟨⟩
  rfl

/-- The sign of a binding stands before a blank. -/
theorem standsBefore_assign (rest : List Char) :
    (Lexeme.plain .assign ['=']).StandsBefore (' ' :: rest) :=
  ⟨'=', [], rfl, rfl, rfl⟩

/-- The pieces of a faithful program are read as they are. -/
theorem FaithfulRow.readable (h : FaithfulRow ns) : Readable (piecesAll ns).flatten := by
  induction h with
  | none => trivial
  | last he =>
    simp only [piecesAll, List.flatten_cons, List.flatten_nil]
    exact he.continuable [] (by rintro _ ⟨⟩) trivial
  | letStatement w ht hn hv _ ih =>
    have hname : Continuable (pieces (.identifier _ _)) := (Faithful.identifier w hn).continuable
    simp only [piecesAll, List.flatten_cons, pieces, ht, List.cons_append, List.append_assoc] at *
    refine ⟨standsBefore_blank rfl rfl rfl, rfl, hname _ ?_ ⟨rfl, standsBefore_assign _, rfl, ?_⟩⟩
    · rintro _ ⟨⟩
      rfl
    · exact hv.continuable.readable rfl (by decide) (by decide) ih
  | returnStatement ht hv _ ih =>
    simp only [piecesAll, List.flatten_cons, pieces, ht, List.cons_append, List.append_assoc]
    refine ⟨standsBefore_blank rfl rfl rfl, rfl, ?_⟩
    exact hv.continuable.readable rfl (by decide) (by decide) ih

end Node

end Monkey
