import Monkey.Proofs.Syntax.Balance
import Monkey.Proofs.Syntax.Exact

/-!
# Parts of trees

Every part of the tree of a phrase is the tree of a phrase itself, which is read further on in the
same tokens.  So what is to be shown of all parts of a tree is shown of the trees of phrases, one
rule of the grammar at a time.

Behind an inner phrase no `else` stands, unless the phrase is a block: an `if` without an
alternative is one that could not have taken it up.

## Main definitions

* `Node.HasPart` — the parts of a tree.
* `Phrase.tree?`, `Phrase.trees` — the trees of a phrase.
* `Node.ReadIn` — a tree is that of a phrase which is read somewhere in a row of tokens.

## Main results

* `Phrase.Reads.trees`, `Phrase.Reads.children` — the trees in a list of trees, and the children
  of a tree.
* `readIn_of_parse` — the parts of the tree of a text.
-/

namespace Monkey

/-- The parts of a tree: it is one itself, and so are the parts of its children. -/
inductive Node.HasPart : Node → Node → Prop
  | self (n : Node) : HasPart n n
  | inside {n m part : Node} (mem : m ∈ n.children) (has : HasPart m part) : HasPart n part

theorem Node.forall_present {P : Node → Prop} {ns : List Node} (h : ∀ n ∈ ns, n.isPresent → P n) :
    ∀ n ∈ ns.filter isPresent, P n := by
  intro n hn
  obtain ⟨hmem, hpresent⟩ := List.mem_filter.mp hn
  exact h n hmem hpresent

namespace Phrase

/-! ### Trees -/

/-- The tree of a phrase that has one. -/
def tree? : Phrase → Option Node
  | sentence n | expression _ n | primary n | block n => some n
  | _ => Option.none

/-- The trees of a phrase, in order. -/
def trees : Phrase → List Node
  | statements ns | items ns | moreItems ns | parameters ns | moreParameters ns => ns
  | sentence n | expression _ n | primary n | block n => [n]
  | pairs ps => ps.flatMap fun (k, v) => [k, v]
  | pair k v => [k, v]

theorem trees_of_tree? {p : Phrase} {n : Node} (h : p.tree? = some n) : p.trees = [n] := by
  cases p <;> cases h <;> rfl

/-- No `else` follows; behind a block there may be one. -/
def NoElse : Phrase → List Token → Prop
  | block _, _ => True
  | _, rest => nextKind rest ≠ .elseWord

end Phrase

open Phrase in
/-- A tree is that of a phrase which is read somewhere in a row of tokens. -/
def Node.ReadIn (n : Node) (row : List Token) : Prop :=
  ∃ p ts rest, ts <:+ row ∧ Reads p ts rest ∧ p.NoElse rest ∧ p.tree? = some n

theorem Node.ReadIn.mono {n : Node} {row row' : List Token} (h : n.ReadIn row)
    (hs : row <:+ row') : n.ReadIn row' := by
  obtain ⟨p, ts, rest, hts, hp⟩ := h
  exact ⟨p, ts, rest, hts.trans hs, hp⟩

namespace Phrase

variable {p : Phrase} {ts rest : List Token} {t : Token} {n m part : Node}

/-! ### What follows -/

theorem ne_elseWord_nil : nextKind [] ≠ .elseWord := by decide

theorem ne_elseWord_of_kind {kind : Token.Kind} (h : t.kind = kind) (rest : List Token)
    (hk : kind ≠ .elseWord) : nextKind (t :: rest) ≠ .elseWord := by
  rw [nextKind_cons, h]
  exact hk

theorem ne_elseWord_of_isInfix (h : Grammar.IsInfix t.kind) (rest : List Token) :
    nextKind (t :: rest) ≠ .elseWord := by
  rw [nextKind_cons]
  intro hk
  rw [hk] at h
  exact absurd h (by decide)

theorem ne_elseWord_of_begun (h : Begun ts) : nextKind ts ≠ .elseWord :=
  nextKind_ne_of_begun h (by decide)

theorem ne_elseWord_of_started (h : Started ts) : nextKind ts ≠ .elseWord := by
  obtain ⟨t, rest, rfl, ht⟩ := h
  intro hk
  rw [nextKind_cons] at hk
  rw [hk] at ht
  exact absurd ht (by decide)

/-- No phrase begins with `else`. -/
theorem Reads.ne_elseWord (h : Reads p ts rest) (hrest : nextKind rest ≠ .elseWord) :
    nextKind ts ≠ .elseWord := by
  induction h with
  | none | noItem | lastItem | noParameter | lastParameter | noPair => exact hrest
  | ended first | unended first => exact ne_elseWord_of_started first.headed
  | letSentence hk | returnSentence hk | identifier hk | string hk | true hk | false hk
  | integer hk | grouped hk | conditional hk | alternative hk | function hk | array hk | hash hk
  | nextItem hk | closed hk | unclosed hk | someParameters hk | nextParameter hk =>
    exact ne_elseWord_of_kind hk _ (by decide)
  | prefixed tight operator right =>
    exact ne_elseWord_of_begun (Reads.prefixed tight operator right).headed
  | expressionSentence first | infixed _ first | call first | index first | simple first
  | someItems first | pair first => exact ne_elseWord_of_begun first.headed
  | lastPair _ ih => exact ih hrest
  | nextPair _ hc _ ih => exact ih (ne_elseWord_of_kind hc _ (by decide))

/-! ### The trees of lists -/

/-- The trees in a list of trees are trees of phrases. -/
theorem Reads.trees (h : Reads p ts rest) (hrest : p.NoElse rest) :
    ∀ n ∈ p.trees, n.ReadIn ts := by
  cases htree : p.tree? with
  | some m =>
    rw [trees_of_tree? htree]
    exact List.forall_mem_singleton.mpr ⟨p, ts, rest, List.suffix_rfl, h, hrest, htree⟩
  | none =>
    induction h with
    | none | noItem | lastItem | noParameter | lastParameter | noPair => exact nofun
    | ended first hs others _ ih =>
      refine List.forall_mem_cons.mpr ⟨?_, fun n hn => ?_⟩
      · exact ⟨_, _, _, List.suffix_rfl, first, ne_elseWord_of_kind hs _ (by decide), rfl⟩
      · exact (ih hrest rfl n hn).mono first.suffix
    | unended first _ others _ ih | someItems first others _ ih =>
      refine List.forall_mem_cons.mpr ⟨?_, fun n hn => ?_⟩
      · exact ⟨_, _, _, List.suffix_rfl, first, others.ne_elseWord hrest, rfl⟩
      · exact (ih hrest rfl n hn).mono first.balanced.1
    | nextItem hc next others _ ih =>
      refine List.forall_mem_cons.mpr ⟨?_, fun n hn => ?_⟩
      · exact ⟨_, _, _, List.suffix_cons _ _, next, others.ne_elseWord hrest, rfl⟩
      · exact (ih hrest rfl n hn).mono (next.balanced.1.trans (List.suffix_cons _ _))
    | someParameters hn others ih =>
      refine List.forall_mem_cons.mpr ⟨?_, fun n hn => ?_⟩
      · exact ⟨_, _, _, List.suffix_rfl, .identifier hn, others.ne_elseWord hrest, rfl⟩
      · exact (ih hrest rfl n hn).mono (List.suffix_cons _ _)
    | nextParameter hc hn others ih =>
      refine List.forall_mem_cons.mpr ⟨?_, fun n hn => ?_⟩
      · exact ⟨_, _, _, List.suffix_cons _ _, .identifier hn, others.ne_elseWord hrest, rfl⟩
      · exact (ih hrest rfl n hn).mono ⟨[_, _], rfl⟩
    | lastPair _ ih => exact ih hrest rfl
    | nextPair first hc _ ih ih' =>
      refine List.forall_mem_append.mpr ⟨fun n hn => ?_, fun n hn => ?_⟩
      · exact ih (ne_elseWord_of_kind hc _ (by decide)) rfl n hn
      · exact (ih' hrest rfl n hn).mono first.suffix
    | pair key hc value =>
      refine List.forall_mem_cons.mpr ⟨?_, List.forall_mem_singleton.mpr ?_⟩
      · exact ⟨_, _, _, List.suffix_rfl, key, ne_elseWord_of_kind hc _ (by decide), rfl⟩
      · exact ⟨_, _, _, key.suffix, value, hrest, rfl⟩
    | letSentence | returnSentence | expressionSentence | infixed | prefixed | call | index
    | simple | identifier | string | true | false | integer | grouped | conditional
    | alternative | function | array | hash | closed | unclosed => cases htree

/-! ### The children of a tree -/

/-- The children of the tree of a phrase are trees of phrases. -/
theorem Reads.children (h : Reads p ts rest) (hrest : p.NoElse rest) (hn : p.tree? = some n) :
    ∀ m ∈ n.children, m.ReadIn ts := by
  induction h with
  | none | ended | unended | noItem | someItems | lastItem | nextItem | noParameter
  | someParameters | lastParameter | nextParameter | noPair | lastPair | nextPair | pair =>
    cases hn
  | simple _ ih => exact ih hrest hn
  | grouped hl inner hr ih =>
    exact fun m hm => (ih (ne_elseWord_of_kind hr _ (by decide)) hn m hm).mono
      (List.suffix_cons _ _)
  | identifier | string | true | false | integer =>
    obtain rfl := Option.some.inj hn
    exact nofun
  | letSentence hw hx hs value =>
    obtain rfl := Option.some.inj hn
    refine Node.forall_present (List.forall_mem_cons.mpr ⟨fun _ => ?_,
      List.forall_mem_singleton.mpr fun _ => ?_⟩)
    · exact ⟨_, _, _, List.suffix_cons _ _, .identifier hx,
        ne_elseWord_of_kind hs _ (by decide), rfl⟩
    · exact ⟨_, _, _, ⟨[_, _, _], rfl⟩, value, hrest, rfl⟩
  | returnSentence _ value | prefixed _ _ value =>
    obtain rfl := Option.some.inj hn
    refine Node.forall_present (List.forall_mem_singleton.mpr fun _ => ?_)
    exact ⟨_, _, _, List.suffix_cons _ _, value, hrest, rfl⟩
  | expressionSentence value =>
    obtain rfl := Option.some.inj hn
    refine Node.forall_present (List.forall_mem_singleton.mpr fun _ => ?_)
    exact ⟨_, _, _, List.suffix_rfl, value, hrest, rfl⟩
  | infixed _ left operator right =>
    obtain rfl := Option.some.inj hn
    refine Node.forall_present (List.forall_mem_cons.mpr ⟨fun _ => ?_,
      List.forall_mem_singleton.mpr fun _ => ?_⟩)
    · exact ⟨_, _, _, List.suffix_rfl, left, ne_elseWord_of_isInfix operator _, rfl⟩
    · exact ⟨_, _, _, left.suffix, right, hrest, rfl⟩
  | call callee hl arguments hr =>
    obtain rfl := Option.some.inj hn
    refine List.forall_mem_append.mpr ⟨?_, fun m hm => ?_⟩
    · refine Node.forall_present (List.forall_mem_singleton.mpr fun _ => ?_)
      exact ⟨_, _, _, List.suffix_rfl, callee, ne_elseWord_of_kind hl _ (by decide), rfl⟩
    · exact (arguments.trees (ne_elseWord_of_kind hr _ (by decide)) m hm).mono
        callee.suffix
  | index left hl subscript hr =>
    obtain rfl := Option.some.inj hn
    refine Node.forall_present (List.forall_mem_cons.mpr ⟨fun _ => ?_,
      List.forall_mem_singleton.mpr fun _ => ?_⟩)
    · exact ⟨_, _, _, List.suffix_rfl, left, ne_elseWord_of_kind hl _ (by decide), rfl⟩
    · exact ⟨_, _, _, left.suffix, subscript, ne_elseWord_of_kind hr _ (by decide), rfl⟩
  | conditional hw hl condition hr consequence =>
    obtain rfl := Option.some.inj hn
    refine Node.forall_present (List.forall_mem_cons.mpr ⟨fun _ => ?_,
      List.forall_mem_cons.mpr ⟨fun _ => ?_, List.forall_mem_singleton.mpr nofun⟩⟩)
    · exact ⟨_, _, _, ⟨[_, _], rfl⟩, condition, ne_elseWord_of_kind hr _ (by decide), rfl⟩
    · exact ⟨_, _, _, condition.suffix.trans ⟨[_, _], rfl⟩, consequence, trivial, rfl⟩
  | @alternative ts ts' _ _ word lp _ _ _ _ _ hw hl condition hr consequence ho alternative =>
    obtain rfl := Option.some.inj hn
    have hsuffix : ts' <:+ word :: lp :: ts := condition.suffix.trans ⟨[word, lp], rfl⟩
    refine Node.forall_present (List.forall_mem_cons.mpr ⟨fun _ => ?_,
      List.forall_mem_cons.mpr ⟨fun _ => ?_, List.forall_mem_singleton.mpr fun _ => ?_⟩⟩)
    · exact ⟨_, _, _, ⟨[_, _], rfl⟩, condition, ne_elseWord_of_kind hr _ (by decide), rfl⟩
    · exact ⟨_, _, _, hsuffix, consequence, trivial, rfl⟩
    · exact ⟨_, _, _, consequence.suffix.trans hsuffix, alternative, trivial, rfl⟩
  | function hw hl names hr body =>
    obtain rfl := Option.some.inj hn
    refine List.forall_mem_append.mpr ⟨fun m hm => ?_, ?_⟩
    · exact (names.trees (ne_elseWord_of_kind hr _ (by decide)) m hm).mono ⟨[_, _], rfl⟩
    · refine Node.forall_present (List.forall_mem_singleton.mpr fun _ => ?_)
      exact ⟨_, _, _, names.suffix.trans ⟨[_, _], rfl⟩, body, trivial, rfl⟩
  | array _ inner hr | hash _ inner hr | closed _ inner hr =>
    obtain rfl := Option.some.inj hn
    exact fun m hm => (inner.trees (ne_elseWord_of_kind hr _ (by decide)) m hm).mono
      (List.suffix_cons _ _)
  | unclosed _ inner =>
    obtain rfl := Option.some.inj hn
    exact fun m hm => (inner.trees ne_elseWord_nil m hm).mono (List.suffix_cons _ _)

/-- **Every part of the tree of a phrase is the tree of a phrase.** -/
theorem Reads.parts (h : Reads p ts rest) (hrest : p.NoElse rest) (hn : p.tree? = some n)
    (hpart : n.HasPart part) : part.ReadIn ts := by
  induction hpart generalizing p ts rest with
  | self => exact ⟨p, ts, rest, List.suffix_rfl, h, hrest, hn⟩
  | inside mem _ ih =>
    obtain ⟨q, us, rest', hus, hq, hrest', hm⟩ := h.children hrest hn _ mem
    exact (ih hq hrest' hm).mono hus

end Phrase

open Phrase in
/-- The parts of the tree of a text without complaints, the whole tree apart, are the trees of
phrases in the text. -/
theorem readIn_of_parse {depth : Nat} {text : String} {p : Parsed} {part : Node}
    (h : parse depth text = some p) (clean : p.complaints = []) (hpart : p.program.HasPart part) :
    part = p.program ∨ part.ReadIn (tokens text) := by
  obtain ⟨ns, hns, hreads⟩ := reads_of_parse h clean
  cases hpart with
  | self => exact .inl rfl
  | inside mem has =>
    rw [hns] at mem
    obtain ⟨q, us, rest, hus, hq, hrest, hm⟩ := hreads.trees ne_elseWord_nil _ mem
    exact .inr ((hq.parts hrest hm has).mono hus)

end Monkey
