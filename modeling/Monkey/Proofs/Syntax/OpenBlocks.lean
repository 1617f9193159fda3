import Mathlib.Data.List.Basic
import Monkey.Proofs.Syntax.Parts
import Monkey.Proofs.Token.Spelling

/-!
# Blocks that the end of a text closes

The parser forgives one thing only: the closing braces of blocks may be left out at the end of a
text.  So the brackets that an error-free text leaves open are the braces of the blocks that its
end closes, one for each.

A tree does not tell how its blocks were ended.  The brace that a block keeps does: no token stands
in a text twice, so the block can be read once more from its brace on, to see where the parser
stops.

## Main definitions

* `readBlock`, `blockEnd?` — a block read once more, and the token at which the parser stops.
* `Node.endsWithText`, `Node.openBlocks` — the blocks that end with the text, and their number.
* `Phrase.Counted` — some brackets are left open, and the text ends if there are any.

## Main results

* `Phrase.Reads.counted` — every phrase leaves as many brackets open as its trees have blocks that
  end with the text.
* `bracketDepth_of_parse` — so does a text that is read without complaints.
* `reread_of_parse` — the blocks of a tree are what is read at their braces.
-/

namespace Monkey

/-! ### Reading a block once more -/

/-- The tokens of a text from a brace on. -/
def tokensFrom (text : String) (brace : Token) : List Token :=
  (tokens text).dropWhile (· ≠ brace)

/-- What the parser reads as the block of a brace.  Nothing nests more deeply than there are
tokens. -/
def readBlock (text : String) (brace : Token) : Option (Reading Node) :=
  let row := tokensFrom text brace
  Parse.block (Parse.expression (row.length + 1)) brace row

/-- The kind of the token at which the parser stops reading the block of a brace. -/
def blockEnd? (text : String) (brace : Token) : Option Token.Kind :=
  (readBlock text brace).map fun r => nextKind ((tokensFrom text brace).drop r.count)

/-- Whether a node is a block that the end of the text closes. -/
def Node.endsWithText (text : String) : Node → Bool
  | block brace _ => blockEnd? text brace = some .eof
  | _ => false

/-- How many blocks of a tree the end of the text closes. -/
def Node.openBlocks (text : String) (n : Node) : Nat :=
  (n.preorder 0).countP fun entry => entry.2.endsWithText text

/-- How many blocks of trees in a row the end of the text closes. -/
@[simp] def Node.openBlocksAll (text : String) : List Node → Nat
  | [] => 0
  | n :: ns => n.openBlocks text + openBlocksAll text ns

variable {text : String} {brace : Token} {ts rest : List Token} {ns : List Node}

theorem tokensFrom_of_suffix (h : brace :: ts <:+ tokens text) :
    tokensFrom text brace = brace :: ts := by
  obtain ⟨before, hrow⟩ := h
  have hnodup : (before ++ brace :: ts).Nodup := by
    rw [hrow]
    exact (List.nodup_append.mp (nodup_tokenize text)).1
  have hbefore : ∀ t ∈ before, decide (t ≠ brace) = true := fun t ht =>
    decide_eq_true ((List.nodup_append.mp hnodup).2.2 t ht brace List.mem_cons_self)
  rw [tokensFrom, ← hrow, List.dropWhile_append_of_pos hbefore]
  exact List.dropWhile_cons_of_neg (by simp)

/-- A block is read once more as what it was. -/
theorem exists_readBlock (inner : Phrase.Reads (.statements ns) ts rest)
    (hs : brace :: ts <:+ tokens text) (hr : nextKind rest = .rbrace ∨ rest = []) :
    (∃ count, readBlock text brace = some ⟨.block brace ns, count, []⟩) ∧
      blockEnd? text brace = some (nextKind rest) := by
  have hhead : ∀ t ∈ rest.head?, t.kind = .rbrace := by
    rcases hr with hr | rfl
    · intro t ht
      rwa [nextKind, ht] at hr
    · exact nofun
  have hyields : (Parse.block (Parse.expression (ts.length + 2)) brace).Yields (brace :: ts)
      (.block brace ns) rest :=
    Parse.yields_block_of_accepted (Parse.accepted_of_reads inner) (by omega) hhead
  obtain ⟨count, hread, hdrop⟩ := hyields
  have hblock : readBlock text brace = some ⟨.block brace ns, count, []⟩ := by
    rw [readBlock, tokensFrom_of_suffix hs]
    exact hread
  refine ⟨⟨count, hblock⟩, ?_⟩
  rw [blockEnd?, hblock, tokensFrom_of_suffix hs]
  exact congrArg (some ∘ nextKind) hdrop

/-! ### Blocks of a tree -/

namespace Node

theorem preorder_eq (n : Node) (depth : Nat) :
    n.preorder depth = (depth, n) :: n.children.flatMap fun m => m.preorder (depth + 1) := by
  rw [preorder]
  simp

/-- The depth at which a tree stands does not change its nodes. -/
theorem map_snd_preorder (n : Node) (depth depth' : Nat) :
    (n.preorder depth).map Prod.snd = (n.preorder depth').map Prod.snd := by
  rw [preorder_eq n depth, preorder_eq n depth', List.map_cons, List.map_cons, List.map_flatMap,
    List.map_flatMap]
  congr 1
  exact List.flatMap_congr fun m hm => map_snd_preorder m (depth + 1) (depth' + 1)
termination_by sizeOf n
decreasing_by exact sizeOf_lt_of_mem_children hm

/-- The nodes of a tree are its parts. -/
theorem hasPart_of_mem_preorder (n : Node) (depth : Nat) :
    ∀ entry ∈ n.preorder depth, n.HasPart entry.2 := by
  rw [preorder_eq]
  refine List.forall_mem_cons.mpr ⟨.self n, fun entry hentry => ?_⟩
  obtain ⟨m, hm, hmem⟩ := List.mem_flatMap.mp hentry
  exact .inside hm (hasPart_of_mem_preorder m (depth + 1) entry hmem)
termination_by sizeOf n
decreasing_by exact sizeOf_lt_of_mem_children hm

/-- The parts of a tree are its nodes. -/
theorem HasPart.exists_mem_preorder {n part : Node} (h : n.HasPart part) (depth : Nat) :
    ∃ entry ∈ n.preorder depth, entry.2 = part := by
  induction h generalizing depth with
  | self n =>
    rw [preorder_eq]
    exact ⟨_, List.mem_cons_self, rfl⟩
  | inside mem _ ih =>
    obtain ⟨entry, hentry, heq⟩ := ih (depth + 1)
    rw [preorder_eq]
    exact ⟨entry, List.mem_cons_of_mem _ (List.mem_flatMap.mpr ⟨_, mem, hentry⟩), heq⟩

/-- No block is open exactly if each part is no open block. -/
theorem openBlocks_eq_zero_iff {n : Node} :
    n.openBlocks text = 0 ↔ ∀ part, n.HasPart part → part.endsWithText text = false := by
  rw [openBlocks, List.countP_eq_zero]
  constructor
  · intro h part hpart
    obtain ⟨entry, hentry, rfl⟩ := hpart.exists_mem_preorder 0
    exact Bool.eq_false_iff.mpr (h entry hentry)
  · intro h entry hentry
    exact Bool.eq_false_iff.mp (h entry.2 (hasPart_of_mem_preorder n 0 entry hentry))

theorem countP_preorder (n : Node) (depth : Nat) :
    (n.preorder depth).countP (fun entry => entry.2.endsWithText text) = n.openBlocks text := by
  have key := congrArg (List.countP (endsWithText text)) (map_snd_preorder n depth 0)
  rw [List.countP_map, List.countP_map] at key
  exact key

theorem countP_flatMap_preorder (ns : List Node) (depth : Nat) :
    (ns.flatMap fun n => n.preorder depth).countP (fun entry => entry.2.endsWithText text) =
      openBlocksAll text ns := by
  induction ns with
  | nil => rfl
  | cons n ns ih =>
    rw [List.flatMap_cons, List.countP_append, countP_preorder, ih, openBlocksAll]

@[simp] theorem openBlocksAll_append (ns ms : List Node) :
    openBlocksAll text (ns ++ ms) = openBlocksAll text ns + openBlocksAll text ms := by
  induction ns with
  | nil => exact (Nat.zero_add _).symm
  | cons n ns ih => rw [List.cons_append, openBlocksAll, openBlocksAll, ih, Nat.add_assoc]

/-- The blocks of a tree are the tree itself, if it is one, and those of its children. -/
theorem openBlocks_eq (n : Node) :
    n.openBlocks text = (n.endsWithText text).toNat + openBlocksAll text n.children := by
  rw [openBlocks, preorder_eq, List.countP_cons, countP_flatMap_preorder, Nat.add_comm]
  congr 1
  cases n.endsWithText text <;> rfl

/-- What is absent has no blocks. -/
@[simp] theorem openBlocks_missing : missing.openBlocks text = 0 := by
  rw [openBlocks_eq]
  rfl

@[simp] theorem openBlocksAll_present (ns : List Node) :
    openBlocksAll text (ns.filter isPresent) = openBlocksAll text ns := by
  induction ns with
  | nil => rfl
  | cons n ns ih =>
    rw [List.filter_cons, openBlocksAll, ← ih]
    split
    · rfl
    · next h =>
      obtain rfl : n = missing := by simpa using h
      rw [openBlocks_missing, Nat.zero_add]

section Nodes

variable (t : Token) (name : String) (l r m : Node) (ns : List Node)

/-! A node that is no block has the blocks of its children. -/

@[simp] theorem openBlocks_program : (program ns).openBlocks text = openBlocksAll text ns := by
  simp [openBlocks_eq (program ns), endsWithText, children]

@[simp] theorem openBlocks_letStatement :
    (letStatement t l r).openBlocks text = l.openBlocks text + r.openBlocks text := by
  simp [openBlocks_eq (letStatement t l r), endsWithText, children]

@[simp] theorem openBlocks_returnStatement :
    (returnStatement t r).openBlocks text = r.openBlocks text := by
  simp [openBlocks_eq (returnStatement t r), endsWithText, children]

@[simp] theorem openBlocks_expressionStatement :
    (expressionStatement t r).openBlocks text = r.openBlocks text := by
  simp [openBlocks_eq (expressionStatement t r), endsWithText, children]

@[simp] theorem openBlocks_identifier : (identifier t name).openBlocks text = 0 := by
  simp [openBlocks_eq, endsWithText, children]

@[simp] theorem openBlocks_integer (value : Int) : (integer t value).openBlocks text = 0 := by
  simp [openBlocks_eq, endsWithText, children]

@[simp] theorem openBlocks_boolean (value : Bool) : (boolean t value).openBlocks text = 0 := by
  simp [openBlocks_eq, endsWithText, children]

@[simp] theorem openBlocks_string : (string t name).openBlocks text = 0 := by
  simp [openBlocks_eq, endsWithText, children]

@[simp] theorem openBlocks_prefixed :
    (prefixed t name r).openBlocks text = r.openBlocks text := by
  simp [openBlocks_eq (prefixed t name r), endsWithText, children]

@[simp] theorem openBlocks_infixed :
    (infixed t l name r).openBlocks text = l.openBlocks text + r.openBlocks text := by
  simp [openBlocks_eq (infixed t l name r), endsWithText, children]

@[simp] theorem openBlocks_conditional :
    (conditional t l m r).openBlocks text =
      l.openBlocks text + (m.openBlocks text + r.openBlocks text) := by
  simp [openBlocks_eq (conditional t l m r), endsWithText, children]

@[simp] theorem openBlocks_function :
    (function t ns r).openBlocks text = openBlocksAll text ns + r.openBlocks text := by
  simp [openBlocks_eq (function t ns r), endsWithText, children]

@[simp] theorem openBlocks_call :
    (call t l ns).openBlocks text = l.openBlocks text + openBlocksAll text ns := by
  simp [openBlocks_eq (call t l ns), endsWithText, children]

@[simp] theorem openBlocks_array : (array t ns).openBlocks text = openBlocksAll text ns := by
  simp [openBlocks_eq (array t ns), endsWithText, children]

@[simp] theorem openBlocks_hash (ps : List (Node × Node)) :
    (hash t ps).openBlocks text = openBlocksAll text (ps.flatMap fun (k, v) => [k, v]) := by
  simp only [openBlocks_eq (hash t ps), endsWithText, children, Bool.toNat_false, Nat.zero_add]

@[simp] theorem openBlocks_index :
    (index t l r).openBlocks text = l.openBlocks text + r.openBlocks text := by
  simp [openBlocks_eq (index t l r), endsWithText, children]

/-- A block has one more if the end of the text closes it. -/
theorem openBlocks_block :
    (block t ns).openBlocks text =
      (if blockEnd? text t = some .eof then 1 else 0) + openBlocksAll text ns := by
  rw [openBlocks_eq, endsWithText]
  split <;> simp [children, *]

end Nodes

end Node

namespace Phrase

open Grammar (IsInfix IsPrefix)

/-! ### Brackets that are left open -/

/-- How many blocks of the trees of a phrase the end of the text closes. -/
@[simp] def openBlocks (text : String) : Phrase → Nat
  | statements ns | items ns | moreItems ns | parameters ns | moreParameters ns =>
    Node.openBlocksAll text ns
  | sentence n | expression _ n | primary n | block n => n.openBlocks text
  | pairs ps => Node.openBlocksAll text (ps.flatMap fun (k, v) => [k, v])
  | pair k v => k.openBlocks text + v.openBlocks text

/-- From `ts` to `rest` as many brackets stay open as `count` says, and the text ends if there are
any. -/
structure Counted (count : Nat) (ts rest : List Token) : Prop where
  suffix : rest <:+ ts
  behind : ∀ depth, depthBehind depth ts = depthBehind (depth + count) rest
  ended : count ≠ 0 → rest = []

variable {t lb rb : Token} {mid : List Token} {k l : Nat}

theorem counted_self : Counted 0 ts ts :=
  ⟨List.suffix_rfl, fun _ => rfl, fun h => absurd rfl h⟩

/-- What is no bracket may stand in front. -/
theorem Counted.cons (h : Counted k ts rest) (ht : t.kind.Neutral) : Counted k (t :: ts) rest where
  suffix := h.suffix.trans (List.suffix_cons t ts)
  behind depth := by rw [depthBehind_cons, ht.depthAfter, h.behind]
  ended := h.ended

/-- Two parts in a row: if the text ends in the first one, there is nothing left for the second
one. -/
theorem Counted.append (first : Counted k ts mid) (second : Counted l mid rest) :
    Counted (k + l) ts rest where
  suffix := second.suffix.trans first.suffix
  behind depth := by rw [first.behind, second.behind, Nat.add_assoc]
  ended hkl := by
    by_cases hk : k = 0
    · exact second.ended (by omega)
    · have hnil := second.suffix
      rw [first.ended hk] at hnil
      exact List.suffix_nil.mp hnil

/-- A part between brackets leaves nothing open, since the text goes on behind it. -/
theorem Counted.enclosed (h : Counted k ts (rb :: rest)) (hl : lb.kind.opens)
    (hr : rb.kind.closes) : Counted k (lb :: ts) rest := by
  have hk : k = 0 := by
    by_contra hk
    exact List.cons_ne_nil rb rest (h.ended hk)
  subst hk
  refine ⟨?_, fun depth => ?_, fun hne => absurd rfl hne⟩
  · exact (List.suffix_cons rb rest).trans (h.suffix.trans (List.suffix_cons lb ts))
  · rw [depthBehind_cons, Token.Kind.depthAfter_of_opens hl, h.behind, depthBehind_cons,
      Token.Kind.depthAfter_of_closes hr]
    rfl

/-- A block that the end of the text closes leaves its brace open. -/
theorem Counted.unclosed (h : Counted k ts []) (hl : lb.kind.opens) :
    Counted (k + 1) (lb :: ts) [] where
  suffix := List.nil_suffix
  behind depth := by
    rw [depthBehind_cons, Token.Kind.depthAfter_of_opens hl, h.behind, Nat.add_right_comm,
      Nat.add_assoc]
  ended _ := rfl

theorem suffix_of_cons {row : List Token} (h : t :: ts <:+ row) : ts <:+ row :=
  (List.suffix_cons t ts).trans h

/-- **A phrase leaves the braces open of the blocks that the end of the text closes, and no other
bracket.** -/
theorem Reads.counted {p : Phrase} (h : Reads p ts rest) (hs : ts <:+ tokens text) :
    Counted (p.openBlocks text) ts rest := by
  induction h with
  | none | noItem | lastItem | noParameter | lastParameter | noPair => exact counted_self
  | ended first hk _ ih ih' =>
    have others := (ih' (first.suffix.trans hs)).cons (neutral_of_kind hk (by decide))
    simpa using (ih hs).append others
  | unended first _ _ ih ih' | someItems first _ ih ih' =>
    simpa using (ih hs).append (ih' (first.balanced.1.trans hs))
  | letSentence hw hn hsign _ ih =>
    have sign := (ih (suffix_of_cons (suffix_of_cons (suffix_of_cons hs)))).cons
      (neutral_of_kind hsign (by decide))
    have name := sign.cons (neutral_of_kind hn (by decide))
    simpa using name.cons (neutral_of_kind hw (by decide))
  | returnSentence hw _ ih =>
    simpa using (ih (suffix_of_cons hs)).cons (neutral_of_kind hw (by decide))
  | expressionSentence _ ih => simpa using ih hs
  | simple _ ih => exact ih hs
  | infixed _ left operator _ ih ih' =>
    have right := (ih' (left.suffix.trans hs)).cons (neutral_of_isInfix operator)
    simpa using (ih hs).append right
  | prefixed _ operator _ ih =>
    simpa using (ih (suffix_of_cons hs)).cons (neutral_of_isPrefix operator)
  | call first hl _ hr ih ih' | index first hl _ hr ih ih' =>
    have inner := (ih' (first.suffix.trans hs)).enclosed (opens_of_kind hl rfl)
      (closes_of_kind hr rfl)
    simpa using (ih hs).append inner
  | identifier h | string h | true h | false h | integer h =>
    simpa using counted_self.cons (neutral_of_kind h (by decide))
  | grouped hl _ hr ih | array hl _ hr ih | hash hl _ hr ih =>
    simpa using (ih (suffix_of_cons hs)).enclosed (opens_of_kind hl rfl) (closes_of_kind hr rfl)
  | conditional hw hl first hr _ ih ih' | function hw hl first hr _ ih ih' =>
    have hin := suffix_of_cons (suffix_of_cons hs)
    have head := (ih hin).enclosed (opens_of_kind hl rfl) (closes_of_kind hr rfl)
    have row := head.append (ih' (first.suffix.trans hin))
    simpa using row.cons (neutral_of_kind hw (by decide))
  | alternative hw hl condition hr consequence ho _ ih ih' ih'' =>
    have hin := suffix_of_cons (suffix_of_cons hs)
    have hin' := condition.suffix.trans hin
    have head := (ih hin).enclosed (opens_of_kind hl rfl) (closes_of_kind hr rfl)
    have last := (ih'' (consequence.suffix.trans hin')).cons (neutral_of_kind ho (by decide))
    have row := head.append ((ih' hin').append last)
    simpa using row.cons (neutral_of_kind hw (by decide))
  | nextItem hc next _ ih ih' =>
    have hin := suffix_of_cons hs
    have row := (ih hin).append (ih' (next.balanced.1.trans hin))
    simpa using row.cons (neutral_of_kind hc (by decide))
  | closed hl inner hr ih =>
    have hend := (exists_readBlock inner hs (.inl hr)).2
    have row := (ih (suffix_of_cons hs)).enclosed (opens_of_kind hl rfl) (closes_of_kind hr rfl)
    simpa [Node.openBlocks_block, hend, hr] using row
  | unclosed hl inner ih =>
    have hend := (exists_readBlock inner hs (.inr rfl)).2
    have row := (ih (suffix_of_cons hs)).unclosed (opens_of_kind hl rfl)
    simpa [Node.openBlocks_block, hend, Nat.add_comm] using row
  | someParameters hn _ ih =>
    simpa using (ih (suffix_of_cons hs)).cons (neutral_of_kind hn (by decide))
  | nextParameter hc hn _ ih =>
    have name := (ih (suffix_of_cons (suffix_of_cons hs))).cons (neutral_of_kind hn (by decide))
    simpa using name.cons (neutral_of_kind hc (by decide))
  | lastPair _ ih => simpa using ih hs
  | nextPair first hc _ ih ih' =>
    have others := (ih' (first.suffix.trans hs)).cons (neutral_of_kind hc (by decide))
    simpa [Nat.add_assoc] using (ih hs).append others
  | pair key hc _ ih ih' =>
    have value := (ih' (key.suffix.trans hs)).cons (neutral_of_kind hc (by decide))
    simpa using (ih hs).append value

/-- The tree of a phrase is a block only where a brace begins it. -/
theorem Reads.exists_statements {p : Phrase} (h : Reads p ts rest)
    (hn : p.tree? = some (.block brace ns)) :
    ∃ inner rest', brace :: inner <:+ ts ∧ Reads (statements ns) inner rest' ∧
      (nextKind rest' = .rbrace ∨ rest' = []) := by
  induction h with
  | closed _ inner hr =>
    cases hn
    exact ⟨_, _, List.suffix_rfl, inner, .inl hr⟩
  | unclosed _ inner =>
    cases hn
    exact ⟨_, _, List.suffix_rfl, inner, .inr rfl⟩
  | simple _ ih => exact ih hn
  | grouped _ _ _ ih =>
    obtain ⟨inner, rest', hs, hinner⟩ := ih hn
    exact ⟨inner, rest', hs.trans (List.suffix_cons _ _), hinner⟩
  | _ => cases hn

end Phrase

/-! ### Texts without complaints -/

section Parse

variable {depth : Nat} {p : Parsed}

/-- The brackets that a text without complaints leaves open are those of its open blocks. -/
theorem bracketDepth_of_parse (h : parse depth text = some p) (clean : p.complaints = []) :
    bracketDepth text = p.program.openBlocks text := by
  obtain ⟨ns, hns, hreads⟩ := reads_of_parse h clean
  have key := (hreads.counted List.suffix_rfl).behind 0
  rw [depthBehind_nil, Nat.zero_add] at key
  rw [hns, Node.openBlocks_program]
  exact key

/-- A block of the tree is what the parser reads at its brace, up to a closing brace or up to the
end of the text. -/
theorem reread_of_parse (h : parse depth text = some p) (clean : p.complaints = [])
    (hpart : p.program.HasPart (.block brace ns)) :
    (∃ count, readBlock text brace = some ⟨.block brace ns, count, []⟩) ∧
      (blockEnd? text brace = some .rbrace ∨ blockEnd? text brace = some .eof) := by
  obtain ⟨_, hns, -⟩ := reads_of_parse h clean
  rcases readIn_of_parse h clean hpart with heq | ⟨q, us, rest, hus, hq, -, htree⟩
  · rw [hns] at heq
    cases heq
  obtain ⟨inner, rest', hs, hinner, hr⟩ := hq.exists_statements htree
  obtain ⟨hread, hend⟩ := exists_readBlock hinner (hs.trans hus) hr
  refine ⟨hread, ?_⟩
  rcases hr with hr | rfl
  · exact .inl (hend.trans (congrArg some hr))
  · exact .inr hend

/-- No brace is left open exactly if a closing brace stands behind every block. -/
theorem openBlocks_eq_zero_iff_of_parse (h : parse depth text = some p)
    (clean : p.complaints = []) :
    p.program.openBlocks text = 0 ↔
      ∀ brace ns, p.program.HasPart (.block brace ns) → blockEnd? text brace = some .rbrace := by
  rw [Node.openBlocks_eq_zero_iff]
  constructor
  · intro hall brace ns hpart
    have hopen : blockEnd? text brace ≠ some .eof := of_decide_eq_false (hall _ hpart)
    exact (reread_of_parse h clean hpart).2.resolve_right hopen
  · intro hall part hpart
    cases part with
    | block brace ns =>
      refine decide_eq_false ?_
      rw [hall brace ns hpart]
      decide
    | _ => rfl

end Parse

end Monkey
