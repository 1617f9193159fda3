import Monkey.Proofs.Token.Layout

/-!
# Formulas

The expressions that are made of names, numbers and truth values by the operators, calls and
subscripts.  A formula is printed with the parentheses that it needs and no others.

## Main definitions

* `Word`, `Numeral` — names that are no keywords, and digits that spell an integer.
* `Formula`, `Formula.rank` — the expressions, and how tightly their operators bind.
* `Formula.pieces`, `Formula.text` — the printed formula.
* `Formula.tree` — the syntax tree of a formula, its tokens at no place.

## Main results

* `Numeral.exists_of_le` — every integer that is not negative has a numeral.
* `Formula.tree_injective` — a formula is known from its tree.
-/

namespace Monkey

/-- A word that is no keyword. -/
@[ext] structure Word where
  first : Char
  others : List Char
  isLetter_first : Token.isLetter first
  isWordPart_others : ∀ c ∈ others, Token.isWordPart c
  not_keyword : Token.Kind.ofWord (String.ofList (first :: others)) = .ident

/-- Digits that spell an integer of the language, at most `2 ^ 63 - 1`. -/
@[ext] structure Numeral where
  first : Char
  others : List Char
  isDigit_first : Token.isDigit first
  isDigit_others : ∀ c ∈ others, Token.isDigit c
  length_le : (first :: others).length ≤ 4300
  value_le : Nat.ofDigitChars 10 (first :: others) 0 ≤ 0x7fffffffffffffff

namespace Word

/-- The lexeme of a name. -/
def lexeme (w : Word) : Lexeme := .plain .ident (w.first :: w.others)

end Word

namespace Numeral

/-- The lexeme of a number. -/
def lexeme (d : Numeral) : Lexeme := .plain .int (d.first :: d.others)

/-- The number that the digits spell. -/
def value (d : Numeral) : Nat := Nat.ofDigitChars 10 (d.first :: d.others) 0

/-- Every integer up to the greatest one is spelled by its decimal digits. -/
theorem exists_of_le {n : Nat} (h : n ≤ 0x7fffffffffffffff) :
    ∃ d : Numeral, d.first :: d.others = Nat.toDigits 10 n ∧ d.value = n := by
  obtain ⟨c, cs, hcs⟩ := List.exists_cons_of_ne_nil (Nat.toDigits_ne_nil (n := n) (b := 10))
  have hvalue : Nat.ofDigitChars 10 (c :: cs) 0 = n := by
    rw [← hcs]
    exact Nat.ofDigitChars_ten_toDigits
  have hdigit : ∀ d ∈ c :: cs, Token.isDigit d := by
    intro d hd
    have h : d.isDigit := Nat.isDigit_of_mem_toDigits (by decide) (by decide) (hcs ▸ hd)
    rw [Char.isDigit, Bool.and_eq_true, decide_eq_true_eq, decide_eq_true_eq] at h
    rw [Token.isDigit, Bool.and_eq_true, decide_eq_true_eq, decide_eq_true_eq]
    exact h
  -- so small a number has 19 digits at most
  have hlength : (c :: cs).length ≤ 19 := by
    rw [← hcs, Nat.length_toDigits_le_iff (by decide) (by decide)]
    exact Nat.lt_of_le_of_lt h (by decide)
  obtain ⟨hc, hothers⟩ := List.forall_mem_cons.mp hdigit
  exact ⟨⟨c, cs, hc, hothers, Nat.le_trans hlength (by decide), hvalue.symm ▸ h⟩, hcs.symm, hvalue⟩

end Numeral

namespace Formula

/-- The operators in front of their operand. -/
inductive Sign
  | bang
  | minus
  deriving DecidableEq, Repr

/-- The lexeme of an operator in front of its operand. -/
def Sign.lexeme : Sign → Lexeme
  | bang => .plain .bang ['!']
  | minus => .plain .minus ['-']

/-- The operators between two operands. -/
inductive Operator
  | eq
  | notEq
  | lt
  | gt
  | plus
  | minus
  | asterisk
  | slash
  deriving DecidableEq, Repr

/-- The lexeme of an operator between two operands. -/
def Operator.lexeme : Operator → Lexeme
  | eq => .plain .eq ['=', '=']
  | notEq => .plain .notEq ['!', '=']
  | lt => .plain .lt ['<']
  | gt => .plain .gt ['>']
  | plus => .plain .plus ['+']
  | minus => .plain .minus ['-']
  | asterisk => .plain .asterisk ['*']
  | slash => .plain .slash ['/']

/-- How tightly an operator binds: equalities less than comparisons, these less than sums,
and sums less than products. -/
def Operator.rank : Operator → Nat
  | eq | notEq => 2
  | lt | gt => 3
  | plus | minus => 4
  | asterisk | slash => 5

end Formula

open Formula in
/-- Expressions of names, numbers and truth values. -/
inductive Formula
  | name (w : Word)
  | number (d : Numeral)
  | boolean (b : Bool)
  | signed (s : Sign) (operand : Formula)
  | operation (op : Operator) (left right : Formula)
  | call (callee : Formula) (arguments : List Formula)
  | index (left subscript : Formula)

namespace Formula

/-- How tightly a formula holds together.  What stands alone, a call and a subscript do so more
than any operator does. -/
def rank : Formula → Nat
  | operation op _ _ => op.rank
  | signed _ _ => 6
  | _ => 7

/-! ### Printing -/

/-- Puts pieces in parentheses if they need them. -/
def enclose (needed : Prop) [Decidable needed] (ps : List Piece) : List Piece :=
  if needed then .lexeme (.plain .lparen ['(']) :: (ps ++ [.lexeme (.plain .rparen [')'])])
  else ps

/-- The lexeme of a truth value. -/
def booleanLexeme : Bool → Lexeme
  | true => .plain .trueWord ['t', 'r', 'u', 'e']
  | false => .plain .falseWord ['f', 'a', 'l', 's', 'e']

mutual

/-- A formula as it is printed.  A left operand is put in parentheses if its operator binds less
tightly, a right operand if its operator binds no more tightly, the operand of a sign if it has
an operator in the middle, and what is called or indexed if it has any operator. -/
def pieces : Formula → List Piece
  | name w => [.lexeme w.lexeme]
  | number d => [.lexeme d.lexeme]
  | boolean b => [.lexeme (booleanLexeme b)]
  | signed s e => .lexeme s.lexeme :: enclose (e.rank < 6) e.pieces
  | operation op l r =>
    enclose (l.rank < op.rank) l.pieces ++ .blank ' ' :: .lexeme op.lexeme :: .blank ' ' ::
      enclose (r.rank ≤ op.rank) r.pieces
  | call f es =>
    enclose (f.rank < 7) f.pieces ++ .lexeme (.plain .lparen ['(']) ::
      (itemPieces es ++ [.lexeme (.plain .rparen [')'])])
  | index l i =>
    enclose (l.rank < 7) l.pieces ++ .lexeme (.plain .lbracket ['[']) ::
      (i.pieces ++ [.lexeme (.plain .rbracket [']'])])

/-- Formulas with commas in between. -/
def itemPieces : List Formula → List Piece
  | [] => []
  | e :: es => e.pieces ++ morePieces es

/-- Formulas with a comma in front of each. -/
def morePieces : List Formula → List Piece
  | [] => []
  | e :: es => .lexeme (.plain .comma [',']) :: .blank ' ' :: (e.pieces ++ morePieces es)

end

/-- The text of a formula. -/
def text (e : Formula) : String := String.ofList (Piece.render e.pieces)

example :
    (operation .minus (boolean true) (operation .plus (signed .minus (operation .lt (boolean true)
      (boolean false))) (call (signed .bang (boolean true)) [index (boolean true)
      (operation .eq (boolean true) (boolean true))]))).text =
    "true - (-(true < false) + (!true)(true[true == true]))" := by decide +kernel

/-! ### Trees -/

mutual

/-- The syntax tree of a formula, with its tokens at no place. -/
def tree : Formula → Node
  | name w => .identifier w.lexeme.unplaced w.lexeme.unplaced.literal
  | number d => .integer d.lexeme.unplaced d.value
  | boolean b => .boolean (booleanLexeme b).unplaced b
  | signed s e => .prefixed s.lexeme.unplaced s.lexeme.unplaced.literal e.tree
  | operation op l r => .infixed op.lexeme.unplaced l.tree op.lexeme.unplaced.literal r.tree
  | call f es => .call (Lexeme.plain .lparen ['(']).unplaced f.tree (trees es)
  | index l i => .index (Lexeme.plain .lbracket ['[']).unplaced l.tree i.tree

/-- The syntax trees of formulas. -/
def trees : List Formula → List Node
  | [] => []
  | e :: es => e.tree :: trees es

end

theorem spelling_injective {l l' : Lexeme} (h : l.unplaced = l'.unplaced) :
    l.kind = l'.kind ∧ l.literal = l'.literal := by
  obtain ⟨hk, hl, -, -⟩ := Token.mk.inj h
  exact ⟨hk, String.ofList_injective hl⟩

theorem operator_injective {op op' : Operator}
    (h : op.lexeme.unplaced = op'.lexeme.unplaced) : op = op' := by
  have hk := (spelling_injective h).1
  cases op <;> cases op' <;> first | rfl | exact absurd hk (by decide)

theorem sign_injective {s s' : Sign} (h : s.lexeme.unplaced = s'.lexeme.unplaced) : s = s' := by
  have hk := (spelling_injective h).1
  cases s <;> cases s' <;> first | rfl | exact absurd hk (by decide)

mutual

/-- A formula is known from its tree. -/
theorem tree_injective {e f : Formula} (h : e.tree = f.tree) : e = f := by
  -- the node tells the constructor, and the token of the node its operator or spelling
  cases e with
  | name w =>
    cases f with
    | name w' =>
      obtain ⟨hf, ho⟩ := List.cons.inj (spelling_injective (Node.identifier.inj h).1).2
      exact congrArg name (Word.ext hf ho)
    | _ => cases h
  | number d =>
    cases f with
    | number d' =>
      obtain ⟨hf, ho⟩ := List.cons.inj (spelling_injective (Node.integer.inj h).1).2
      exact congrArg number (Numeral.ext hf ho)
    | _ => cases h
  | boolean b =>
    cases f with
    | boolean b' => exact congrArg boolean (Node.boolean.inj h).2
    | _ => cases h
  | signed s e =>
    cases f with
    | signed s' e' =>
      obtain ⟨hs, -, he⟩ := Node.prefixed.inj h
      rw [sign_injective hs, tree_injective he]
    | _ => cases h
  | operation op l r =>
    cases f with
    | operation op' l' r' =>
      obtain ⟨hop, hl, -, hr⟩ := Node.infixed.inj h
      rw [operator_injective hop, tree_injective hl, tree_injective hr]
    | _ => cases h
  | call e es =>
    cases f with
    | call e' es' =>
      obtain ⟨-, he, hes⟩ := Node.call.inj h
      rw [tree_injective he, trees_injective hes]
    | _ => cases h
  | index l i =>
    cases f with
    | index l' i' =>
      obtain ⟨-, hl, hi⟩ := Node.index.inj h
      rw [tree_injective hl, tree_injective hi]
    | _ => cases h

theorem trees_injective {es fs : List Formula} (h : trees es = trees fs) : es = fs := by
  cases es with
  | nil =>
    cases fs with
    | nil => rfl
    | cons f fs => cases h
  | cons e es =>
    cases fs with
    | nil => cases h
    | cons f fs =>
      obtain ⟨he, hes⟩ := List.cons.inj h
      rw [tree_injective he, trees_injective hes]

end

end Formula

end Monkey
