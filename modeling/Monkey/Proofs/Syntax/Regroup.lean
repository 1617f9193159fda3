import Monkey.Proofs.Syntax.Phrase

/-!
# Operands in a row

The grammar and the phrases derive the same rows of tokens.  A phrase has its operands
grouped by the ranks of their operators; the grammar has them one behind the other.  Taking
the groups apart is easy.  The other way an operand is added on the right, and the operator
in front of it goes as deep into the tree as its rank demands.

## Main results

* `Reads.extended` — one more operator and operand behind an expression.
* `derivable_iff` — phrases and the grammar have the same programs.
-/

namespace Monkey.Phrase

open Grammar (IsInfix)

/-- One more operator and operand behind an expression make an expression: the operator
goes as deep down on the right as its rank demands. -/
theorem Reads.extended {p : Phrase} {ts mid : List Token} (h : Reads p ts mid) :
    ∀ {least : Nat} {n : Node} {t : Token} {ts' rest : List Token} {r : Node},
      p = expression least n → mid = t :: ts' → IsInfix t.kind →
      least ≤ (Level.ofKind t.kind).rank → Reads (expression unaryRank r) ts' rest →
      ∃ m, Reads (expression least m) ts rest := by
  induction h with
  | @infixed ts ts₁ mid s least l r' tight left operator right _ ih =>
    rintro _ _ t ts' rest r ⟨⟩ rfl hop hle hr
    obtain ⟨-, hlt⟩ := rank_of_isInfix hop
    by_cases hst : (Level.ofKind t.kind).rank ≤ (Level.ofKind s.kind).rank
    · -- the new operator binds no tighter: the whole is its left operand
      exact ⟨_, .infixed hle (.infixed hst left operator right) hop (hr.weaken hlt)⟩
    · -- it binds more tightly: it takes the right operand
      obtain ⟨m, hm⟩ := ih rfl rfl hop (by omega) hr
      exact ⟨_, .infixed tight left operator hm⟩
  | prefixed tight operator right =>
    rintro _ _ t ts' rest r ⟨⟩ rfl hop hle hr
    obtain ⟨-, hlt⟩ := rank_of_isInfix hop
    exact ⟨_, .infixed hle (.prefixed (Nat.le_of_lt hlt) operator right) hop (hr.weaken hlt)⟩
  | call callee hl arguments hr' =>
    rintro _ _ t ts' rest r ⟨⟩ rfl hop hle hr
    exact ⟨_, .infixed hle (.call callee hl arguments hr') hop
      (hr.weaken (rank_of_isInfix hop).2)⟩
  | index left hl subscript hr' =>
    rintro _ _ t ts' rest r ⟨⟩ rfl hop hle hr
    exact ⟨_, .infixed hle (.index left hl subscript hr') hop
      (hr.weaken (rank_of_isInfix hop).2)⟩
  | simple inner =>
    rintro _ _ t ts' rest r ⟨⟩ rfl hop hle hr
    exact ⟨_, .infixed hle (.simple inner) hop (hr.weaken (rank_of_isInfix hop).2)⟩
  | _ => rintro _ _ _ _ _ _ ⟨⟩

/-! ### The same programs -/

open Grammar (Derives)

/-- What the grammar says about a phrase. -/
def Derived : Phrase → List Token → List Token → Prop
  | statements _, ts, rest => Derives .statements ts rest
  | sentence _, ts, rest => Derives .sentence ts rest
  | expression least _, ts, rest => Derives .expression ts rest ∧
    (unaryRank ≤ least → Derives .unary ts rest) ∧
    (operandRank ≤ least → Derives .operand ts rest)
  | primary _, ts, rest => Derives .primary ts rest
  | items _, ts, rest => Derives .items ts rest
  | moreItems _, ts, rest => Derives .moreItems ts rest
  | block _, ts, rest => Derives .block ts rest
  | parameters _, ts, rest => Derives .parameters ts rest
  | moreParameters _, ts, rest => Derives .moreParameters ts rest
  | pairs _, ts, rest => Derives .pairs ts rest
  | pair _ _, ts, rest => Derives .pair ts rest

theorem derived_of_operand {least : Nat} {n : Node} {ts rest : List Token}
    (h : Derives .operand ts rest) : Derived (expression least n) ts rest :=
  ⟨.single (.plain h), fun _ => .plain h, fun _ => h⟩

/-- A phrase is a word of the grammar. -/
theorem Reads.derived {p : Phrase} {ts rest : List Token} (h : Reads p ts rest) :
    Derived p ts rest := by
  induction h with
  | none => exact .none
  | ended _ semicolon _ ih ih' => exact .ended ih semicolon ih'
  | unended _ apart _ ih ih' => exact .unended ih apart ih'
  | letSentence hw hn hs _ ih => exact .letSentence hw hn hs ih.1
  | returnSentence hw _ ih => exact .returnSentence hw ih.1
  | expressionSentence _ ih => exact .expressionSentence ih.1
  | @infixed _ _ _ _ least _ _ tight _ operator _ ihl ihr =>
    -- an operation is too loose for an operand, so two of the three claims are empty
    obtain ⟨-, hlt⟩ := rank_of_isInfix operator
    have loose : least < unaryRank := Nat.lt_of_le_of_lt tight hlt
    refine ⟨ihr.1.joined rfl ihl.1 operator, fun h => absurd loose (Nat.not_lt.mpr h), fun h => ?_⟩
    exact absurd loose (Nat.not_lt.mpr (Nat.le_trans (by decide) h))
  | prefixed tight operator _ ih =>
    have unary := Derives.prefixed operator (ih.2.1 (Nat.le_refl _))
    refine ⟨.single unary, fun _ => unary, fun h => absurd (Nat.le_trans h tight) (by decide)⟩
  | call _ hl _ hr ihf ihas => exact derived_of_operand (.call (ihf.2.2 (Nat.le_refl _)) hl ihas hr)
  | index _ hl _ hr ihl ihi => exact derived_of_operand (.index (ihl.2.2 (Nat.le_refl _)) hl ihi.1 hr)
  | simple _ ih => exact derived_of_operand (.simple ih)
  | identifier h | string h | true h | false h => exact .word (h ▸ by decide)
  | integer h range => exact .integer h range
  | grouped hl _ hr ih => exact .grouped hl ih.1 hr
  | conditional hw hl _ hr _ ihc ihb => exact .conditional hw hl ihc.1 hr ihb
  | alternative hw hl _ hr _ ho _ ihc ihb iha => exact .alternative hw hl ihc.1 hr ihb ho iha
  | function hw hl _ hr _ ihp ihb => exact .function hw hl ihp hr ihb
  | array hl _ hr ih => exact .array hl ih hr
  | hash hl _ hr ih => exact .hash hl ih hr
  | noItem => exact .noItem
  | someItems _ _ ih ih' => exact .someItems ih.1 ih'
  | lastItem => exact .lastItem
  | nextItem hc _ _ ih ih' => exact .nextItem hc ih.1 ih'
  | closed hl _ hr ih => exact .closed hl ih hr
  | unclosed hl _ ih => exact .unclosed hl ih
  | noParameter => exact .noParameter
  | someParameters hn _ ih => exact .someParameters hn ih
  | lastParameter => exact .lastParameter
  | nextParameter hc hn _ ih => exact .nextParameter hc hn ih
  | noPair => exact .noPair
  | lastPair _ ih => exact .lastPair ih
  | nextPair _ hc _ ih ih' => exact .nextPair ih hc ih'
  | pair _ hc _ ihk ihv => exact .pair ihk.1 hc ihv.1

/-- What the phrases of a symbol are. -/
def Found : Grammar.Symbol → List Token → List Token → Prop
  | .statements, ts, rest => ∃ ns, Reads (statements ns) ts rest
  | .sentence, ts, rest => ∃ n, Reads (sentence n) ts rest
  | .expression, ts, rest => ∃ n, Reads (expression 2 n) ts rest
  | .unary, ts, rest => ∃ n, Reads (expression unaryRank n) ts rest
  | .operand, ts, rest => ∃ n, Reads (expression operandRank n) ts rest
  | .primary, ts, rest => ∃ n, Reads (primary n) ts rest
  | .items, ts, rest => ∃ ns, Reads (items ns) ts rest
  | .moreItems, ts, rest => ∃ ns, Reads (moreItems ns) ts rest
  | .block, ts, rest => ∃ n, Reads (block n) ts rest
  | .parameters, ts, rest => ∃ ns, Reads (parameters ns) ts rest
  | .moreParameters, ts, rest => ∃ ns, Reads (moreParameters ns) ts rest
  | .pairs, ts, rest => ∃ ps, Reads (pairs ps) ts rest
  | .pair, ts, rest => ∃ k v, Reads (pair k v) ts rest

theorem found_of_isWord {t : Token} (h : Grammar.IsWord t.kind) (rest : List Token) :
    ∃ n, Reads (primary n) (t :: rest) rest := by
  simp only [Grammar.IsWord, List.mem_cons, List.not_mem_nil, or_false] at h
  rcases h with h | h | h | h
  · exact ⟨_, .identifier h⟩
  · exact ⟨_, .string h⟩
  · exact ⟨_, .true h⟩
  · exact ⟨_, .false h⟩

/-- A word of the grammar is a phrase. -/
theorem found_of_derives {s : Grammar.Symbol} {ts rest : List Token} (h : Derives s ts rest) :
    Found s ts rest := by
  induction h with
  | none => exact ⟨_, .none⟩
  | ended _ semicolon _ ih ih' =>
    obtain ⟨n, hn⟩ := ih
    obtain ⟨ns, hns⟩ := ih'
    exact ⟨_, .ended hn semicolon hns⟩
  | unended _ apart _ ih ih' =>
    obtain ⟨n, hn⟩ := ih
    obtain ⟨ns, hns⟩ := ih'
    exact ⟨_, .unended hn apart hns⟩
  | letSentence hw hn hs _ ih =>
    obtain ⟨n, hv⟩ := ih
    exact ⟨_, .letSentence hw hn hs hv⟩
  | returnSentence hw _ ih =>
    obtain ⟨n, hv⟩ := ih
    exact ⟨_, .returnSentence hw hv⟩
  | expressionSentence _ ih =>
    obtain ⟨n, hv⟩ := ih
    obtain ⟨t, ts', rfl, -⟩ := begun_of_reads hv
    exact ⟨_, .expressionSentence hv⟩
  | single _ ih =>
    obtain ⟨n, hn⟩ := ih
    exact ⟨n, hn.weaken (by decide)⟩
  | operation _ operator _ ihl ihr =>
    -- the grammar adds an operand on the right, the phrase has to make room for it
    obtain ⟨l, hl⟩ := ihl
    obtain ⟨r, hr⟩ := ihr
    exact hl.extended rfl rfl operator (rank_of_isInfix operator).1 hr
  | prefixed operator _ ih =>
    obtain ⟨r, hr⟩ := ih
    exact ⟨_, .prefixed (Nat.le_refl _) operator hr⟩
  | plain _ ih =>
    obtain ⟨n, hn⟩ := ih
    exact ⟨n, hn.weaken (by decide)⟩
  | simple _ ih =>
    obtain ⟨n, hn⟩ := ih
    exact ⟨n, .simple hn⟩
  | call _ hl _ hr ihf ihas =>
    obtain ⟨f, hf⟩ := ihf
    obtain ⟨as, has⟩ := ihas
    exact ⟨_, .call hf hl has hr⟩
  | index _ hl _ hr ihl ihi =>
    obtain ⟨l, hl'⟩ := ihl
    obtain ⟨i, hi⟩ := ihi
    exact ⟨_, .index hl' hl hi hr⟩
  | word h => exact found_of_isWord h _
  | integer h range => exact ⟨_, .integer h range⟩
  | grouped hl _ hr ih =>
    obtain ⟨n, hn⟩ := ih
    exact ⟨n, .grouped hl hn hr⟩
  | conditional hw hl _ hr _ ihc ihb =>
    obtain ⟨c, hc⟩ := ihc
    obtain ⟨b, hb⟩ := ihb
    exact ⟨_, .conditional hw hl hc hr hb⟩
  | alternative hw hl _ hr _ ho _ ihc ihb iha =>
    obtain ⟨c, hc⟩ := ihc
    obtain ⟨b, hb⟩ := ihb
    obtain ⟨a, ha⟩ := iha
    exact ⟨_, .alternative hw hl hc hr hb ho ha⟩
  | function hw hl _ hr _ ihp ihb =>
    obtain ⟨ps, hps⟩ := ihp
    obtain ⟨b, hb⟩ := ihb
    exact ⟨_, .function hw hl hps hr hb⟩
  | array hl _ hr ih =>
    obtain ⟨es, hes⟩ := ih
    exact ⟨_, .array hl hes hr⟩
  | hash hl _ hr ih =>
    obtain ⟨ps, hps⟩ := ih
    exact ⟨_, .hash hl hps hr⟩
  | noItem => exact ⟨_, .noItem⟩
  | someItems _ _ ih ih' =>
    obtain ⟨n, hn⟩ := ih
    obtain ⟨ns, hns⟩ := ih'
    exact ⟨_, .someItems hn hns⟩
  | lastItem => exact ⟨_, .lastItem⟩
  | nextItem hc _ _ ih ih' =>
    obtain ⟨n, hn⟩ := ih
    obtain ⟨ns, hns⟩ := ih'
    exact ⟨_, .nextItem hc hn hns⟩
  | closed hl _ hr ih =>
    obtain ⟨ns, hns⟩ := ih
    exact ⟨_, .closed hl hns hr⟩
  | unclosed hl _ ih =>
    obtain ⟨ns, hns⟩ := ih
    exact ⟨_, .unclosed hl hns⟩
  | noParameter => exact ⟨_, .noParameter⟩
  | someParameters hn _ ih =>
    obtain ⟨ns, hns⟩ := ih
    exact ⟨_, .someParameters hn hns⟩
  | lastParameter => exact ⟨_, .lastParameter⟩
  | nextParameter hc hn _ ih =>
    obtain ⟨ns, hns⟩ := ih
    exact ⟨_, .nextParameter hc hn hns⟩
  | noPair => exact ⟨_, .noPair⟩
  | lastPair _ ih =>
    obtain ⟨k, v, hp⟩ := ih
    exact ⟨_, .lastPair hp⟩
  | nextPair _ hc _ ih ih' =>
    obtain ⟨k, v, hp⟩ := ih
    obtain ⟨ps, hps⟩ := ih'
    exact ⟨_, .nextPair hp hc hps⟩
  | pair _ hc _ ihk ihv =>
    obtain ⟨k, hk⟩ := ihk
    obtain ⟨v, hv⟩ := ihv
    exact ⟨k, v, .pair hk hc hv⟩

/-- The programs of the grammar are the rows of tokens that read as statements. -/
theorem derivable_iff {ts : List Token} :
    Grammar.Derivable ts ↔ ∃ ns, Reads (statements ns) ts [] :=
  ⟨found_of_derives, fun ⟨_, h⟩ => h.derived⟩

end Monkey.Phrase
