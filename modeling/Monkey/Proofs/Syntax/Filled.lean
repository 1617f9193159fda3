import Monkey.Proofs.Syntax.Parts
import Monkey.Proofs.Token.Rendering
import Monkey.Value.Operator

/-!
# Trees without holes

Where the parser breaks off it leaves a child out, drops an item from a list, or reads on behind
what it could not use.  It complains each time: a text without complaints has a tree in which
nothing is absent but the alternatives of `if` expressions, and those only where the text has no
`else`.

## Main definitions

* `Value.KnowsPrefix`, `Value.KnowsInfix` — the operators that have a value for some operands.
* `IfReads` — where an `if` stands in a text, and what follows its consequence.
* `Node.Filled` — a node has all that belongs to it.

## Main results

* `Phrase.filled_of_reads` — the tree of a phrase is filled.
* `parse_leaves_no_holes` — so is every part of the tree of a text without complaints.
-/

namespace Monkey

/-! ### What belongs to a node -/

/-- There is an operand for which a prefix operator has a value. -/
def Value.KnowsPrefix (operator : String) : Prop :=
  ∃ right, (applyPrefix operator right).isOk

/-- There are operands for which an infix operator has a value. -/
def Value.KnowsInfix (operator : String) : Prop :=
  ∃ left right, (applyInfix operator left right).isOk

open Phrase in
/-- In a row of tokens an `if` with this condition and this consequence begins at a word, and
`rest` follows the consequence. -/
def IfReads (row : List Token) (word : Token) (condition consequence : Node)
    (rest : List Token) : Prop :=
  ∃ lp rp ts ts', word :: lp :: ts <:+ row ∧
    word.kind = .ifWord ∧ lp.kind = .lparen ∧ rp.kind = .rparen ∧
    Reads (.expression 2 condition) ts (rp :: ts') ∧ Reads (.block consequence) ts' rest

open Node Value in
/-- A node has all that belongs to it: nothing is absent from it or from its lists, an operator is
one that the evaluator knows, and an integer is what its digits spell.  An alternative is there
exactly if an `else` follows the consequence. -/
def Node.Filled (row : List Token) : Node → Prop
  | missing | bare _ => False
  | program statements | block _ statements => ∀ n ∈ statements, n.isPresent
  | letStatement _ name value => name.kind = .identifier ∧ value.isPresent
  | returnStatement _ value => value.isPresent
  | expressionStatement _ expression => expression.isPresent
  | identifier token name => token ∈ row ∧ token.kind = .ident ∧ token.literal = name
  | integer token value =>
    token.literal ≠ "" ∧ (∀ c ∈ token.literal.toList, Token.isDigit c) ∧
      value = Nat.ofDigitChars 10 token.literal.toList 0 ∧ 0 ≤ value ∧ value ≤ 0x7fffffffffffffff
  | boolean .. | string .. => True
  | prefixed _ operator right => KnowsPrefix operator ∧ right.isPresent
  | infixed _ left operator right => left.isPresent ∧ KnowsInfix operator ∧ right.isPresent
  | conditional token condition consequence alternative =>
    condition.isPresent ∧ consequence.kind = .block ∧
      (alternative.kind = .block ∨ alternative = missing) ∧
      ∃ rest, IfReads row token condition consequence rest ∧
        (alternative.isPresent ↔ nextKind rest = .elseWord)
  | function _ parameters body => (∀ n ∈ parameters, n.kind = .identifier) ∧ body.kind = .block
  | call _ callee arguments => callee.isPresent ∧ ∀ n ∈ arguments, n.isPresent
  | array _ elements => ∀ n ∈ elements, n.isPresent
  | hash _ pairs => ∀ p ∈ pairs, p.1.isPresent ∧ p.2.isPresent
  | index _ left subscript => left.isPresent ∧ subscript.isPresent

/-! ### The spelling of tokens -/

namespace Lexeme

open Token Grammar

variable {l : Lexeme}

/-- A lexeme of the kind of a symbol is that symbol. -/
theorem WellFormed.mem_symbols (h : l.WellFormed) (hk : l.kind ∈ symbols.map Prod.snd) :
    (l.literal, l.kind) ∈ symbols := by
  cases h with
  | keyword listed =>
    have apart : ∀ k ∈ keywords, k.2 ∉ symbols.map Prod.snd := by decide
    exact absurd hk (apart _ listed)
  | identifier => exact absurd hk (by decide : Kind.ident ∉ symbols.map Prod.snd)
  | number => exact absurd hk (by decide : Kind.int ∉ symbols.map Prod.snd)
  | string => exact absurd hk (by decide : Kind.string ∉ symbols.map Prod.snd)
  | symbol listed => exact listed
  | illegal => exact absurd hk (by decide : Kind.illegal ∉ symbols.map Prod.snd)

theorem WellFormed.digits (h : l.WellFormed) (hk : l.kind = .int) :
    l.literal ≠ [] ∧ ∀ c ∈ l.literal, isDigit c := by
  cases h with
  | keyword listed =>
    have apart : ∀ k ∈ keywords, k.2 ≠ .int := by decide
    exact absurd hk (apart _ listed)
  | number digits => exact ⟨List.cons_ne_nil _ _, digits⟩
  | symbol listed =>
    have apart : ∀ s ∈ symbols, s.2 ≠ .int := by decide
    exact absurd hk (apart _ listed)
  | identifier | string | illegal => cases hk

end Lexeme

namespace Token

open Grammar Lexeme Value

variable {t : Token}

theorem kind_origin (t : Token) : t.origin.kind = t.kind := congrArg Prod.fst (signature_origin t)

theorem ofList_literal_origin (t : Token) : String.ofList t.origin.literal = t.literal :=
  congrArg Prod.snd (signature_origin t)

theorem knowsPrefix_of_isPrefix (h : t.origin.WellFormed) (hk : IsPrefix t.kind) :
    KnowsPrefix t.literal := by
  rw [← kind_origin] at hk
  have listed := h.mem_symbols (by revert hk; cases t.origin.kind <;> decide)
  have known : ∀ s ∈ symbols, IsPrefix s.2 →
      (applyPrefix (String.ofList s.1) (.integer 1)).isOk = true := by
    decide
  rw [← ofList_literal_origin]
  exact ⟨_, known _ listed hk⟩

theorem knowsInfix_of_isInfix (h : t.origin.WellFormed) (hk : IsInfix t.kind) :
    KnowsInfix t.literal := by
  rw [← kind_origin] at hk
  have listed := h.mem_symbols (by revert hk; cases t.origin.kind <;> decide)
  have known : ∀ s ∈ symbols, IsInfix s.2 →
      (applyInfix (String.ofList s.1) (.integer 1) (.integer 1)).isOk = true := by
    decide
  rw [← ofList_literal_origin]
  exact ⟨_, _, known _ listed hk⟩

theorem digits_of_kind (h : t.origin.WellFormed) (hk : t.kind = .int) :
    t.literal ≠ "" ∧ ∀ c ∈ t.literal.toList, isDigit c := by
  rw [← kind_origin] at hk
  obtain ⟨hne, hdigits⟩ := h.digits hk
  rw [← ofList_literal_origin, String.toList_ofList]
  refine ⟨fun hempty => hne ?_, hdigits⟩
  rw [← String.toList_ofList (l := t.origin.literal), hempty, String.toList_empty]

end Token

/-! ### Trees of phrases -/

namespace Phrase

variable {p : Phrase} {ts rest row : List Token} {n b : Node}

theorem kind_of_reads_block (h : Reads (block b) ts rest) : b.kind = .block := by
  cases h <;> rfl

/-- The names of the parameters that are read. -/
def names : Phrase → List Node
  | parameters ns | moreParameters ns => ns
  | _ => []

theorem kind_of_mem_names (h : Reads p ts rest) : ∀ n ∈ p.names, n.kind = .identifier := by
  induction h with
  | someParameters _ _ ih | nextParameter _ _ _ ih => exact List.forall_mem_cons.mpr ⟨rfl, ih⟩
  | _ => exact nofun

theorem isPresent_of_readIn (h : n.ReadIn row) : n.isPresent := by
  obtain ⟨p, ts, rest, -, hp, -, hn⟩ := h
  have hcomplete := hp.complete
  cases p <;> cases hn <;> exact hcomplete

theorem isPresent_of_mem_trees (h : Reads p ts rest) (hrest : p.NoElse rest) :
    ∀ n ∈ p.trees, n.isPresent :=
  fun n hn => isPresent_of_readIn (h.trees hrest n hn)

/-- **The tree of a phrase is filled.** -/
theorem filled_of_reads (h : Reads p ts rest) (hrest : p.NoElse rest) (hn : p.tree? = some n)
    (hrow : ts <:+ row) (spelled : ∀ t ∈ row, t.origin.WellFormed) : n.Filled row := by
  induction h with
  | none | ended | unended | noItem | someItems | lastItem | nextItem | noParameter
  | someParameters | lastParameter | nextParameter | noPair | lastPair | nextPair | pair =>
    cases hn
  | simple _ ih => exact ih hrest hn hrow
  | grouped hl inner hr ih =>
    exact ih (ne_elseWord_of_kind hr _ (by decide)) hn ((List.suffix_cons _ _).trans hrow)
  | letSentence _ _ _ value =>
    obtain rfl := Option.some.inj hn
    exact ⟨rfl, isPresent_of_reads value⟩
  | returnSentence _ value | expressionSentence value =>
    obtain rfl := Option.some.inj hn
    exact isPresent_of_reads value
  | infixed _ left operator right =>
    obtain rfl := Option.some.inj hn
    have hmem := hrow.subset (left.balanced.1.subset List.mem_cons_self)
    exact ⟨isPresent_of_reads left, Token.knowsInfix_of_isInfix (spelled _ hmem) operator,
      isPresent_of_reads right⟩
  | prefixed _ operator right =>
    obtain rfl := Option.some.inj hn
    have hmem := hrow.subset List.mem_cons_self
    exact ⟨Token.knowsPrefix_of_isPrefix (spelled _ hmem) operator, isPresent_of_reads right⟩
  | call callee _ arguments hr =>
    obtain rfl := Option.some.inj hn
    exact ⟨isPresent_of_reads callee,
      isPresent_of_mem_trees arguments (ne_elseWord_of_kind hr _ (by decide))⟩
  | index left _ subscript =>
    obtain rfl := Option.some.inj hn
    exact ⟨isPresent_of_reads left, isPresent_of_reads subscript⟩
  | identifier hk =>
    obtain rfl := Option.some.inj hn
    exact ⟨hrow.subset List.mem_cons_self, hk, rfl⟩
  | string | true | false =>
    obtain rfl := Option.some.inj hn
    trivial
  | integer hk range =>
    obtain rfl := Option.some.inj hn
    obtain ⟨hne, hdigits⟩ := Token.digits_of_kind (spelled _ (hrow.subset List.mem_cons_self)) hk
    exact ⟨hne, hdigits, rfl, Int.natCast_nonneg _, Int.ofNat_le.mpr range.2⟩
  | conditional hw hl condition hr consequence =>
    obtain rfl := Option.some.inj hn
    refine ⟨isPresent_of_reads condition, kind_of_reads_block consequence, .inr rfl, _,
      ⟨_, _, _, _, hrow, hw, hl, hr, condition, consequence⟩, ?_⟩
    exact ⟨nofun, fun hk => absurd hk hrest⟩
  | alternative hw hl condition hr consequence ho alternative =>
    obtain rfl := Option.some.inj hn
    refine ⟨isPresent_of_reads condition, kind_of_reads_block consequence,
      .inl (kind_of_reads_block alternative), _,
      ⟨_, _, _, _, hrow, hw, hl, hr, condition, consequence⟩, ?_⟩
    exact ⟨fun _ => ho, fun _ => alternative.complete⟩
  | function _ _ names _ body =>
    obtain rfl := Option.some.inj hn
    exact ⟨kind_of_mem_names names, kind_of_reads_block body⟩
  | array _ inner hr | closed _ inner hr =>
    obtain rfl := Option.some.inj hn
    exact isPresent_of_mem_trees inner (ne_elseWord_of_kind hr _ (by decide))
  | unclosed _ inner =>
    obtain rfl := Option.some.inj hn
    exact isPresent_of_mem_trees inner ne_elseWord_nil
  | hash _ entries hr =>
    obtain rfl := Option.some.inj hn
    have hpresent := isPresent_of_mem_trees entries (ne_elseWord_of_kind hr _ (by decide))
    intro p hp
    constructor
    · exact hpresent p.1 (List.mem_flatMap.mpr ⟨p, hp, List.mem_cons_self⟩)
    · exact hpresent p.2 (List.mem_flatMap.mpr ⟨p, hp, List.mem_cons_of_mem _ List.mem_cons_self⟩)

theorem filled_of_readIn {text : String} (h : n.ReadIn (tokens text)) :
    n.Filled (tokens text) := by
  obtain ⟨p, ts, rest, hts, hp, hrest, hn⟩ := h
  exact filled_of_reads hp hrest hn hts fun _ ht => wellFormed_origin_of_mem_tokens ht

end Phrase

/-! ### The tree of a text -/

open Phrase in
/-- **No silent holes.**  If a text is read without complaints, all that belongs to a node is
there in its tree, at every node: names and values, operands, items of lists, consequences and
bodies, and an alternative exactly where the text has an `else`.  All operators are known, and all
integers are what their digits spell, from 0 to `2 ^ 63 - 1`.  And a depth beyond the number of its
tokens is enough to read a text. -/
theorem parse_leaves_no_holes (text : String) :
    (∀ depth, (tokens text).length < depth → (parse depth text).isSome) ∧
    ∀ depth p, parse depth text = some p → p.complaints = [] →
      ∀ part, p.program.HasPart part → part.Filled (tokens text) := by
  refine ⟨fun depth => isSome_parse, fun depth p h clean part hpart => ?_⟩
  obtain rfl | hread := readIn_of_parse h clean hpart
  · obtain ⟨ns, hns, hreads⟩ := reads_of_parse h clean
    rw [hns]
    exact isPresent_of_mem_trees hreads ne_elseWord_nil
  · exact filled_of_readIn hread

/-- An `if` with an `else`, and one whose block is closed by the end of the text. -/
theorem parse_leaves_no_holes_unclosed :
    let text := "let f = fn(x) \x7b if (!x) \x7b [x] \x7d else \x7b -x == \x7b1: 2\x7d" ++
      "\x7d \x7d; if (f(2)[0]) \x7b 1"
    ∃ p part, parse 60 text = some p ∧ p.complaints = [] ∧ p.program.HasPart part ∧
      part.kind = .conditional ∧ part.Filled (tokens text) := by
  intro text
  have hparse : (parse 60 text).map (fun p =>
      (p.complaints, (p.program.children.flatMap Node.children).map Node.kind)) =
        some ([], [.identifier, .function, .conditional]) := by
    decide +kernel
  obtain ⟨p, hp, hfacts⟩ := Option.map_eq_some_iff.mp hparse
  obtain ⟨clean, hkinds⟩ := Prod.mk.inj hfacts
  have hmem : Node.Kind.conditional ∈ (p.program.children.flatMap Node.children).map Node.kind :=
    hkinds ▸ by decide
  obtain ⟨part, hpart, hkind⟩ := List.mem_map.mp hmem
  obtain ⟨n, hn, hchild⟩ := List.mem_flatMap.mp hpart
  have has : p.program.HasPart part := .inside hn (.inside hchild (.self part))
  exact ⟨p, part, hp, clean, has, hkind, (parse_leaves_no_holes text).2 60 p hp clean part has⟩

end Monkey
