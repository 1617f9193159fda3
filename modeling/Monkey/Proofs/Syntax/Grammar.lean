import Monkey.Token.Basic

/-!
# The grammar

What a program is, as a grammar over tokens.  The grammar knows nothing of levels: an
expression is a row of operands with operators in between, and how they group is not its
matter.

A rule is about a list of tokens and a tail of it: `Derives s ts rest` says that `ts`
begins with a word of the symbol `s`, and that `rest` is what follows the word.  Only two
rules look at what follows.  A block may lack its closing brace where the text ends, and a
sentence may lack its semicolon unless the next one would be read as its continuation.

## Main definitions

* `Grammar.Symbol`, `Grammar.Derives` — the symbols and their rules.
* `Grammar.Derivable` — the rows of tokens that are programs.
-/

namespace Monkey.Grammar

/-- The symbols of the grammar. -/
inductive Symbol
  /-- Sentences in a row, as in a program or a block. -/
  | statements
  /-- A statement without the semicolon behind it. -/
  | sentence
  | expression
  | unary
  /-- A primary expression that is called or indexed any number of times. -/
  | operand
  | primary
  /-- Expressions between commas, or none. -/
  | items
  /-- The items behind the first one, each with a comma in front. -/
  | moreItems
  | block
  /-- Names between commas, or none. -/
  | parameters
  /-- The names behind the first one, each with a comma in front. -/
  | moreParameters
  /-- Pairs between commas, or none; a comma may follow the last one. -/
  | pairs
  /-- A key and its value. -/
  | pair
  deriving DecidableEq, Repr

/-- The infix operators. -/
def IsInfix (kind : Token.Kind) : Prop :=
  kind ∈ [.plus, .minus, .asterisk, .slash, .eq, .notEq, .lt, .gt]

/-- The prefix operators. -/
def IsPrefix (kind : Token.Kind) : Prop :=
  kind ∈ [.bang, .minus]

/-- The tokens that are expressions by themselves, integers apart. -/
def IsWord (kind : Token.Kind) : Prop :=
  kind ∈ [.ident, .string, .trueWord, .falseWord]

/-- The kinds that can begin a statement and can go on with an expression as well. -/
def Continues (kind : Token.Kind) : Prop :=
  kind ∈ [.lparen, .lbracket, .minus]

instance (kind : Token.Kind) : Decidable (IsInfix kind) :=
  inferInstanceAs (Decidable (kind ∈ _))

instance (kind : Token.Kind) : Decidable (IsPrefix kind) :=
  inferInstanceAs (Decidable (kind ∈ _))

instance (kind : Token.Kind) : Decidable (IsWord kind) :=
  inferInstanceAs (Decidable (kind ∈ _))

instance (kind : Token.Kind) : Decidable (Continues kind) :=
  inferInstanceAs (Decidable (kind ∈ _))

/-- The integer literals that are allowed: at most 4300 digits, and at most `2 ^ 63 - 1`. -/
def InRange (t : Token) : Prop :=
  t.literal.toList.length ≤ 4300 ∧
    Nat.ofDigitChars 10 t.literal.toList 0 ≤ 0x7fffffffffffffff

open Monkey.Grammar.Symbol

/-- `Derives s ts rest`: the tokens `ts` begin with a word of `s`, and `rest` follows. -/
inductive Derives : Symbol → List Token → List Token → Prop
  /-- No statement. -/
  | none {ts : List Token} : Derives statements ts ts
  /-- A statement with a semicolon. -/
  | ended {ts ts' rest : List Token} {t : Token} (first : Derives sentence ts (t :: ts'))
    (semicolon : t.kind = .semicolon) (others : Derives statements ts' rest) :
    Derives statements ts rest
  /-- A statement without one: another statement that follows does not continue it. -/
  | unended {ts ts' rest : List Token} (first : Derives sentence ts ts')
    (apart : ts' ≠ rest → ∀ t ∈ ts'.head?, ¬ Continues t.kind)
    (others : Derives statements ts' rest) : Derives statements ts rest
  | letSentence {ts rest : List Token} {word name sign : Token} (hw : word.kind = .letWord)
    (hn : name.kind = .ident) (hs : sign.kind = .assign) (value : Derives expression ts rest) :
    Derives sentence (word :: name :: sign :: ts) rest
  | returnSentence {ts rest : List Token} {word : Token} (hw : word.kind = .returnWord)
    (value : Derives expression ts rest) : Derives sentence (word :: ts) rest
  | expressionSentence {ts rest : List Token} (value : Derives expression ts rest) :
    Derives sentence ts rest
  /-- One operand. -/
  | single {ts rest : List Token} (first : Derives unary ts rest) : Derives expression ts rest
  /-- One more operator and operand. -/
  | operation {ts ts' rest : List Token} {t : Token} (left : Derives expression ts (t :: ts'))
    (operator : IsInfix t.kind) (right : Derives unary ts' rest) : Derives expression ts rest
  | prefixed {ts rest : List Token} {t : Token} (operator : IsPrefix t.kind)
    (right : Derives unary ts rest) : Derives unary (t :: ts) rest
  | plain {ts rest : List Token} (inner : Derives operand ts rest) : Derives unary ts rest
  | simple {ts rest : List Token} (inner : Derives primary ts rest) : Derives operand ts rest
  | call {ts ts' rest : List Token} {lp rp : Token} (callee : Derives operand ts (lp :: ts'))
    (hl : lp.kind = .lparen) (arguments : Derives items ts' (rp :: rest))
    (hr : rp.kind = .rparen) : Derives operand ts rest
  | index {ts ts' rest : List Token} {lb rb : Token} (left : Derives operand ts (lb :: ts'))
    (hl : lb.kind = .lbracket) (subscript : Derives expression ts' (rb :: rest))
    (hr : rb.kind = .rbracket) : Derives operand ts rest
  | word {rest : List Token} {t : Token} (h : IsWord t.kind) : Derives primary (t :: rest) rest
  | integer {rest : List Token} {t : Token} (h : t.kind = .int) (range : InRange t) :
    Derives primary (t :: rest) rest
  | grouped {ts rest : List Token} {lp rp : Token} (hl : lp.kind = .lparen)
    (inner : Derives expression ts (rp :: rest)) (hr : rp.kind = .rparen) :
    Derives primary (lp :: ts) rest
  | conditional {ts ts' rest : List Token} {word lp rp : Token} (hw : word.kind = .ifWord)
    (hl : lp.kind = .lparen) (condition : Derives expression ts (rp :: ts'))
    (hr : rp.kind = .rparen) (consequence : Derives block ts' rest) :
    Derives primary (word :: lp :: ts) rest
  | alternative {ts ts' ts'' rest : List Token} {word lp rp other : Token}
    (hw : word.kind = .ifWord) (hl : lp.kind = .lparen)
    (condition : Derives expression ts (rp :: ts')) (hr : rp.kind = .rparen)
    (consequence : Derives block ts' (other :: ts'')) (ho : other.kind = .elseWord)
    (alternative : Derives block ts'' rest) : Derives primary (word :: lp :: ts) rest
  | function {ts ts' rest : List Token} {word lp rp : Token} (hw : word.kind = .fnWord)
    (hl : lp.kind = .lparen) (names : Derives parameters ts (rp :: ts'))
    (hr : rp.kind = .rparen) (body : Derives block ts' rest) :
    Derives primary (word :: lp :: ts) rest
  | array {ts rest : List Token} {lb rb : Token} (hl : lb.kind = .lbracket)
    (elements : Derives items ts (rb :: rest)) (hr : rb.kind = .rbracket) :
    Derives primary (lb :: ts) rest
  | hash {ts rest : List Token} {lb rb : Token} (hl : lb.kind = .lbrace)
    (entries : Derives pairs ts (rb :: rest)) (hr : rb.kind = .rbrace) :
    Derives primary (lb :: ts) rest
  | noItem {ts : List Token} : Derives items ts ts
  | someItems {ts ts' rest : List Token} (first : Derives expression ts ts')
    (others : Derives moreItems ts' rest) : Derives items ts rest
  | lastItem {ts : List Token} : Derives moreItems ts ts
  | nextItem {ts ts' rest : List Token} {comma : Token} (hc : comma.kind = .comma)
    (next : Derives expression ts ts') (others : Derives moreItems ts' rest) :
    Derives moreItems (comma :: ts) rest
  | closed {ts rest : List Token} {lb rb : Token} (hl : lb.kind = .lbrace)
    (inner : Derives statements ts (rb :: rest)) (hr : rb.kind = .rbrace) :
    Derives block (lb :: ts) rest
  /-- A block that the end of the text closes. -/
  | unclosed {ts : List Token} {lb : Token} (hl : lb.kind = .lbrace)
    (inner : Derives statements ts []) : Derives block (lb :: ts) []
  | noParameter {ts : List Token} : Derives parameters ts ts
  | someParameters {ts rest : List Token} {name : Token} (hn : name.kind = .ident)
    (others : Derives moreParameters ts rest) : Derives parameters (name :: ts) rest
  | lastParameter {ts : List Token} : Derives moreParameters ts ts
  | nextParameter {ts rest : List Token} {comma name : Token} (hc : comma.kind = .comma)
    (hn : name.kind = .ident) (others : Derives moreParameters ts rest) :
    Derives moreParameters (comma :: name :: ts) rest
  | noPair {ts : List Token} : Derives pairs ts ts
  | lastPair {ts rest : List Token} (last : Derives pair ts rest) : Derives pairs ts rest
  | nextPair {ts ts' rest : List Token} {comma : Token} (first : Derives pair ts (comma :: ts'))
    (hc : comma.kind = .comma) (others : Derives pairs ts' rest) : Derives pairs ts rest
  | pair {ts ts' rest : List Token} {colon : Token} (key : Derives expression ts (colon :: ts'))
    (hc : colon.kind = .colon) (value : Derives expression ts' rest) : Derives pair ts rest

/-- A row of tokens is a program. -/
def Derivable (ts : List Token) : Prop := Derives statements ts []

/-- Two rows of operands with an operator in between are one row. -/
theorem Derives.joined {s : Symbol} {ts' rest : List Token} (h : Derives s ts' rest) :
    s = expression → ∀ {ts : List Token} {t : Token}, Derives expression ts (t :: ts') →
      IsInfix t.kind → Derives expression ts rest := by
  induction h with
  | single first => exact fun _ _ _ left operator => .operation left operator first
  | operation _ operator right ih =>
    intro _ ts t left operator'
    exact .operation (ih rfl left operator') operator right
  | _ => rintro ⟨⟩

end Monkey.Grammar
