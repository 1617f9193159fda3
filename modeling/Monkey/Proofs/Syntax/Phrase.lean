import Monkey.Proofs.Syntax.Constructs
import Monkey.Proofs.Syntax.Grammar

/-!
# Phrases

The grammar once more, with levels and with the trees that are read.  It derives the same
rows of tokens as the grammar, but it groups operands by how tightly their operators bind,
so a row of operands has one tree.

A phrase `expression least n` has `n` for its tree, and the outermost operator of `n`
binds at least at rank `least`.  A prefix operator binds at rank 6, a call and a subscript
at 7, and what stands alone at any rank.

## Main definitions

* `Phrase`, `Reads` — the phrases and their rules.
* `leastRank` — the rank that an expression of a level has at least.
* `Begun` — the first token can begin an expression.

## Main results

* `begun_of_reads`, `isPresent_of_reads` — an expression has a first token and a tree.
* `Reads.length_le` — what follows a phrase is no longer than the whole.
* `Reads.weaken` — an expression is one for every smaller rank.
-/

namespace Monkey

/-- A piece of a program together with what is read for it. -/
inductive Phrase
  | statements (ns : List Node)
  | sentence (n : Node)
  | expression (least : Nat) (n : Node)
  | primary (n : Node)
  | items (ns : List Node)
  | moreItems (ns : List Node)
  | block (n : Node)
  | parameters (ns : List Node)
  | moreParameters (ns : List Node)
  | pairs (ps : List (Node × Node))
  | pair (key value : Node)

namespace Phrase

open Grammar (IsInfix IsPrefix Continues InRange)

/-- The least rank of the expressions without infix operators. -/
def unaryRank : Nat := Level.prefixed.rank

/-- The least rank of the expressions without prefix operators. -/
def operandRank : Nat := Level.call.rank

/-- The rank that an expression of a level has at least. -/
def leastRank (level : Level) : Nat := min (level.rank + 1) unaryRank

/-- `Reads p ts rest`: the tokens `ts` begin with the phrase `p`, and `rest` follows. -/
inductive Reads : Phrase → List Token → List Token → Prop
  | none {ts : List Token} : Reads (statements []) ts ts
  | ended {ts ts' rest : List Token} {t : Token} {n : Node} {ns : List Node}
    (first : Reads (sentence n) ts (t :: ts')) (semicolon : t.kind = .semicolon)
    (others : Reads (statements ns) ts' rest) : Reads (statements (n :: ns)) ts rest
  | unended {ts ts' rest : List Token} {n : Node} {ns : List Node}
    (first : Reads (sentence n) ts ts') (apart : ts' ≠ rest → ∀ t ∈ ts'.head?, ¬ Continues t.kind)
    (others : Reads (statements ns) ts' rest) : Reads (statements (n :: ns)) ts rest
  | letSentence {ts rest : List Token} {word name sign : Token} {n : Node}
    (hw : word.kind = .letWord) (hn : name.kind = .ident) (hs : sign.kind = .assign)
    (value : Reads (expression 2 n) ts rest) :
    Reads (sentence (.letStatement word (.identifier name name.literal) n))
      (word :: name :: sign :: ts) rest
  | returnSentence {ts rest : List Token} {word : Token} {n : Node}
    (hw : word.kind = .returnWord) (value : Reads (expression 2 n) ts rest) :
    Reads (sentence (.returnStatement word n)) (word :: ts) rest
  | expressionSentence {ts rest : List Token} {t : Token} {n : Node}
    (value : Reads (expression 2 n) (t :: ts) rest) :
    Reads (sentence (.expressionStatement t n)) (t :: ts) rest
  | infixed {ts ts' rest : List Token} {t : Token} {least : Nat} {l r : Node}
    (tight : least ≤ (Level.ofKind t.kind).rank)
    (left : Reads (expression (Level.ofKind t.kind).rank l) ts (t :: ts'))
    (operator : IsInfix t.kind)
    (right : Reads (expression ((Level.ofKind t.kind).rank + 1) r) ts' rest) :
    Reads (expression least (.infixed t l t.literal r)) ts rest
  | prefixed {ts rest : List Token} {t : Token} {least : Nat} {r : Node}
    (tight : least ≤ unaryRank) (operator : IsPrefix t.kind)
    (right : Reads (expression unaryRank r) ts rest) :
    Reads (expression least (.prefixed t t.literal r)) (t :: ts) rest
  | call {ts ts' rest : List Token} {lp rp : Token} {least : Nat} {f : Node} {as : List Node}
    (callee : Reads (expression operandRank f) ts (lp :: ts')) (hl : lp.kind = .lparen)
    (arguments : Reads (items as) ts' (rp :: rest)) (hr : rp.kind = .rparen) :
    Reads (expression least (.call lp f as)) ts rest
  | index {ts ts' rest : List Token} {lb rb : Token} {least : Nat} {l i : Node}
    (left : Reads (expression operandRank l) ts (lb :: ts')) (hl : lb.kind = .lbracket)
    (subscript : Reads (expression 2 i) ts' (rb :: rest)) (hr : rb.kind = .rbracket) :
    Reads (expression least (.index lb l i)) ts rest
  | simple {ts rest : List Token} {least : Nat} {n : Node} (inner : Reads (primary n) ts rest) :
    Reads (expression least n) ts rest
  | identifier {rest : List Token} {t : Token} (h : t.kind = .ident) :
    Reads (primary (.identifier t t.literal)) (t :: rest) rest
  | string {rest : List Token} {t : Token} (h : t.kind = .string) :
    Reads (primary (.string t t.literal)) (t :: rest) rest
  | true {rest : List Token} {t : Token} (h : t.kind = .trueWord) :
    Reads (primary (.boolean t Bool.true)) (t :: rest) rest
  | false {rest : List Token} {t : Token} (h : t.kind = .falseWord) :
    Reads (primary (.boolean t Bool.false)) (t :: rest) rest
  | integer {rest : List Token} {t : Token} (h : t.kind = .int) (range : InRange t) :
    Reads (primary (.integer t (Nat.ofDigitChars 10 t.literal.toList 0))) (t :: rest) rest
  | grouped {ts rest : List Token} {lp rp : Token} {n : Node} (hl : lp.kind = .lparen)
    (inner : Reads (expression 2 n) ts (rp :: rest)) (hr : rp.kind = .rparen) :
    Reads (primary n) (lp :: ts) rest
  | conditional {ts ts' rest : List Token} {word lp rp : Token} {c b : Node}
    (hw : word.kind = .ifWord) (hl : lp.kind = .lparen)
    (condition : Reads (expression 2 c) ts (rp :: ts')) (hr : rp.kind = .rparen)
    (consequence : Reads (block b) ts' rest) :
    Reads (primary (.conditional word c b .missing)) (word :: lp :: ts) rest
  | alternative {ts ts' ts'' rest : List Token} {word lp rp other : Token} {c b a : Node}
    (hw : word.kind = .ifWord) (hl : lp.kind = .lparen)
    (condition : Reads (expression 2 c) ts (rp :: ts')) (hr : rp.kind = .rparen)
    (consequence : Reads (block b) ts' (other :: ts'')) (ho : other.kind = .elseWord)
    (alternative : Reads (block a) ts'' rest) :
    Reads (primary (.conditional word c b a)) (word :: lp :: ts) rest
  | function {ts ts' rest : List Token} {word lp rp : Token} {ps : List Node} {b : Node}
    (hw : word.kind = .fnWord) (hl : lp.kind = .lparen)
    (names : Reads (parameters ps) ts (rp :: ts')) (hr : rp.kind = .rparen)
    (body : Reads (block b) ts' rest) :
    Reads (primary (.function word ps b)) (word :: lp :: ts) rest
  | array {ts rest : List Token} {lb rb : Token} {es : List Node} (hl : lb.kind = .lbracket)
    (elements : Reads (items es) ts (rb :: rest)) (hr : rb.kind = .rbracket) :
    Reads (primary (.array lb es)) (lb :: ts) rest
  | hash {ts rest : List Token} {lb rb : Token} {ps : List (Node × Node)}
    (hl : lb.kind = .lbrace) (entries : Reads (pairs ps) ts (rb :: rest))
    (hr : rb.kind = .rbrace) : Reads (primary (.hash lb ps)) (lb :: ts) rest
  | noItem {ts : List Token} : Reads (items []) ts ts
  | someItems {ts ts' rest : List Token} {n : Node} {ns : List Node}
    (first : Reads (expression 2 n) ts ts') (others : Reads (moreItems ns) ts' rest) :
    Reads (items (n :: ns)) ts rest
  | lastItem {ts : List Token} : Reads (moreItems []) ts ts
  | nextItem {ts ts' rest : List Token} {comma : Token} {n : Node} {ns : List Node}
    (hc : comma.kind = .comma) (next : Reads (expression 2 n) ts ts')
    (others : Reads (moreItems ns) ts' rest) : Reads (moreItems (n :: ns)) (comma :: ts) rest
  | closed {ts rest : List Token} {lb rb : Token} {ns : List Node} (hl : lb.kind = .lbrace)
    (inner : Reads (statements ns) ts (rb :: rest)) (hr : rb.kind = .rbrace) :
    Reads (block (.block lb ns)) (lb :: ts) rest
  | unclosed {ts : List Token} {lb : Token} {ns : List Node} (hl : lb.kind = .lbrace)
    (inner : Reads (statements ns) ts []) : Reads (block (.block lb ns)) (lb :: ts) []
  | noParameter {ts : List Token} : Reads (parameters []) ts ts
  | someParameters {ts rest : List Token} {name : Token} {ns : List Node}
    (hn : name.kind = .ident) (others : Reads (moreParameters ns) ts rest) :
    Reads (parameters (.identifier name name.literal :: ns)) (name :: ts) rest
  | lastParameter {ts : List Token} : Reads (moreParameters []) ts ts
  | nextParameter {ts rest : List Token} {comma name : Token} {ns : List Node}
    (hc : comma.kind = .comma) (hn : name.kind = .ident)
    (others : Reads (moreParameters ns) ts rest) :
    Reads (moreParameters (.identifier name name.literal :: ns)) (comma :: name :: ts) rest
  | noPair {ts : List Token} : Reads (pairs []) ts ts
  | lastPair {ts rest : List Token} {k v : Node} (last : Reads (pair k v) ts rest) :
    Reads (pairs [(k, v)]) ts rest
  | nextPair {ts ts' rest : List Token} {comma : Token} {k v : Node} {ps : List (Node × Node)}
    (first : Reads (pair k v) ts (comma :: ts')) (hc : comma.kind = .comma)
    (others : Reads (pairs ps) ts' rest) : Reads (pairs ((k, v) :: ps)) ts rest
  | pair {ts ts' rest : List Token} {colon : Token} {k v : Node}
    (key : Reads (expression 2 k) ts (colon :: ts')) (hc : colon.kind = .colon)
    (value : Reads (expression 2 v) ts' rest) : Reads (pair k v) ts rest

/-! ### The first token -/

/-- The kinds of token that begin an expression. -/
def Begins (kind : Token.Kind) : Prop :=
  kind ∈ [.ident, .int, .string, .trueWord, .falseWord, .bang, .minus, .lparen, .ifWord, .fnWord,
    .lbracket, .lbrace]

instance (kind : Token.Kind) : Decidable (Begins kind) :=
  inferInstanceAs (Decidable (kind ∈ _))

/-- The kinds of token that begin a statement. -/
def Starts (kind : Token.Kind) : Prop :=
  kind = .letWord ∨ kind = .returnWord ∨ Begins kind

instance (kind : Token.Kind) : Decidable (Starts kind) :=
  inferInstanceAs (Decidable (_ ∨ _ ∨ _))

/-- Some token comes first, and it can begin an expression. -/
def Begun (ts : List Token) : Prop := ∃ t rest, ts = t :: rest ∧ Begins t.kind

/-- Some token comes first, and it can begin a statement. -/
def Started (ts : List Token) : Prop := ∃ t rest, ts = t :: rest ∧ Starts t.kind

/-- An expression has a first token, and so has a statement. -/
def Headed : Phrase → List Token → Prop
  | expression _ _, ts | primary _, ts => Begun ts
  | sentence _, ts => Started ts
  | _, _ => True

theorem begun_of_kind {t : Token} {kind : Token.Kind} (rest : List Token) (h : t.kind = kind)
    (hk : Begins kind) : Begun (t :: rest) :=
  ⟨t, rest, rfl, h ▸ hk⟩

theorem Reads.headed {p : Phrase} {ts rest : List Token} (h : Reads p ts rest) : Headed p ts := by
  induction h with
  -- an operator behind its operand leaves the first token to the operand
  | infixed _ _ _ _ ih | call _ _ _ _ ih | index _ _ _ _ ih | simple _ ih => exact ih
  | prefixed _ operator =>
    refine ⟨_, _, rfl, ?_⟩
    rcases List.mem_cons.mp operator with h | h
    · rw [h]; decide
    · rw [List.mem_singleton.mp h]; decide
  | identifier h | string h | true h | false h | integer h | grouped h | conditional h
  | alternative h | function h | array h | hash h => exact begun_of_kind _ h (by decide)
  | letSentence hw => exact ⟨_, _, rfl, .inl hw⟩
  | returnSentence hw => exact ⟨_, _, rfl, .inr (.inl hw)⟩
  | expressionSentence _ ih =>
    obtain ⟨t, rest, heq, ht⟩ := ih
    exact ⟨t, rest, heq, .inr (.inr ht)⟩
  | none | ended | unended | noItem | someItems | lastItem | nextItem | closed | unclosed
  | noParameter | someParameters | lastParameter | nextParameter | noPair | lastPair | nextPair
  | pair => trivial

theorem begun_of_reads {least : Nat} {n : Node} {ts rest : List Token}
    (h : Reads (expression least n) ts rest) : Begun ts := h.headed

/-- What an expression begins with is of no other kind. -/
theorem nextKind_ne_of_begun {ts : List Token} {kind : Token.Kind} (h : Begun ts)
    (hk : ¬ Begins kind) : nextKind ts ≠ kind := by
  obtain ⟨t, rest, rfl, ht⟩ := h
  rintro rfl
  exact hk ht

/-- A row of statements is empty, or it begins with a statement. -/
theorem started_of_reads {ns : List Node} {ts rest : List Token}
    (h : Reads (statements ns) ts rest) : ts = rest ∨ Started ts := by
  cases h with
  | none => exact .inl rfl
  | ended first => exact .inr first.headed
  | unended first => exact .inr first.headed

/-! ### What is read -/

theorem Reads.length_le {p : Phrase} {ts rest : List Token} (h : Reads p ts rest) :
    rest.length ≤ ts.length := by
  induction h <;> grind

/-- The trees of a phrase are there. -/
def Complete : Phrase → Prop
  | sentence n | expression _ n | primary n | block n => n.isPresent
  | pair k v => k.isPresent ∧ v.isPresent
  | _ => True

theorem Reads.complete {p : Phrase} {ts rest : List Token} (h : Reads p ts rest) :
    Complete p := by
  induction h with
  | grouped _ _ _ ih | simple _ ih => exact ih
  | pair _ _ _ ihk ihv => exact ⟨ihk, ihv⟩
  | letSentence | returnSentence | expressionSentence | infixed | prefixed | call | index
  | identifier | string | true | false | integer | conditional | alternative | function | array
  | hash | closed | unclosed => rfl
  | none | ended | unended | noItem | someItems | lastItem | nextItem | noParameter
  | someParameters | lastParameter | nextParameter | noPair | lastPair | nextPair => trivial

theorem isPresent_of_reads {least : Nat} {n : Node} {ts rest : List Token}
    (h : Reads (expression least n) ts rest) : n.isPresent := h.complete

/-- Neither part of a pair is missing. -/
theorem not_missing_of_reads {k v : Node} {ts rest : List Token}
    (h : Reads (pair k v) ts rest) : ¬ (k.isMissing || v.isMissing) := by
  obtain ⟨hk, hv⟩ : k.isPresent ∧ v.isPresent := h.complete
  rw [Node.isPresent_iff] at hk hv
  rw [Bool.or_eq_true, Node.isMissing_iff, Node.isMissing_iff]
  exact fun h => h.elim hk hv

/-! ### Levels -/

/-- An expression is one for every smaller rank. -/
theorem Reads.weaken {least least' : Nat} {n : Node} {ts rest : List Token}
    (h : Reads (expression least n) ts rest) (hle : least' ≤ least) :
    Reads (expression least' n) ts rest := by
  cases h with
  | infixed tight left operator right => exact .infixed (Nat.le_trans hle tight) left operator right
  | prefixed tight operator right => exact .prefixed (Nat.le_trans hle tight) operator right
  | call callee hl arguments hr => exact .call callee hl arguments hr
  | index left hl subscript hr => exact .index left hl subscript hr
  | simple inner => exact .simple inner

/-- The infix operators have the ranks from 2 to 5. -/
theorem rank_of_isInfix {kind : Token.Kind} (h : IsInfix kind) :
    2 ≤ (Level.ofKind kind).rank ∧ (Level.ofKind kind).rank < unaryRank := by
  simp only [IsInfix, List.mem_cons, List.not_mem_nil, or_false] at h
  rcases h with rfl | rfl | rfl | rfl | rfl | rfl | rfl | rfl <;> decide

end Phrase

end Monkey
