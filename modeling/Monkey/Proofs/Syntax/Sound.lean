import Monkey.Proofs.Syntax.Phrase

/-!
# Clean readings are phrases

What a construct reads without a complaint is the phrase that it stands for, as long as
this is so of the expressions inside it.  An expression ends where nothing binds to it any
more, and it is the loop over the operators that has to know: whatever it has read so far
is fit to be the left operand of the operator that comes up.

## Main definitions

* `Parse.Sound` — a parser for expressions reads phrases only.

## Main results

* `Parse.sound_expression` — the parser does, at every depth.
* `Parse.reads_of_yields_program` — a program without complaints is a phrase.
-/

namespace Monkey.Parse

open Monkey.Parser Phrase

/-- Every expression that is read without a complaint is a phrase, and nothing that
follows binds to it. -/
def Sound (E : Expressions) : Prop :=
  ∀ ⦃level ts n cur⦄, (E level).Yields ts n cur →
    Reads (.expression (leastRank level) n) ts cur.tail ∧ binding cur.tail ≤ level.rank

variable {E : Expressions} {t : Token} {ts ts' : List Token} {n : Node}

theorem Sound.lowest (hE : Sound E) {cur : List Token} (h : (E .lowest).Yields ts n cur) :
    Reads (.expression 2 n) ts cur.tail :=
  (hE h).1

theorem Sound.isPresent (hE : Sound E) {level : Level} {cur : List Token}
    (h : (E level).Yields ts n cur) : n.isPresent :=
  isPresent_of_reads (hE h).1

/-! ### Lists -/

theorem reads_of_moreItems (hE : Sound E) {close : Token.Kind} (hc : close ≠ .eof)
    {r : Option (List Node)} (ns : List Node) (cur : List Token)
    (h : (iterate (moreItems E close) ns).Yields cur r ts') :
    ∃ ms c rest, r = some (ns.reverse ++ ms) ∧ ts' = c :: rest ∧ c.kind = close ∧
      Reads (.moreItems ms) cur.tail ts' := by
  induction ns, cur, h using Yields.iterate_induction with
  | done ns cur h =>
    obtain ⟨-, c, rest, hcur, hk, rfl, rfl⟩ := (yields_moreItems_inr hc).mp h
    exact ⟨[], c, rest, by rw [List.append_nil], rfl, hk, hcur ▸ .lastItem⟩
  | more ns cur ns₁ cur₁ h hlt h₁ ih =>
    obtain ⟨comma, rest, hcur, hcomma, n, hn, rfl⟩ := (yields_moreItems_inl hc).mp h
    obtain ⟨ms, c, rest', rfl, rfl, hk, hms⟩ := ih
    rw [addPresent_of_isPresent (hE.isPresent hn), List.reverse_cons, List.append_assoc]
    exact ⟨n :: ms, c, rest', rfl, rfl, hk, hcur ▸ .nextItem hcomma (hE.lowest hn) hms⟩

theorem reads_of_items (hE : Sound E) {close : Token.Kind} (hc : close ≠ .eof)
    {r : Option (List Node)} (h : (items E close).Yields ts r ts') :
    ∃ ns c rest, r = some ns ∧ ts' = c :: rest ∧ c.kind = close ∧
      Reads (.items ns) ts.tail ts' := by
  rw [yields_items] at h
  split at h
  · next hk =>
    obtain ⟨rfl, rfl⟩ := h
    obtain ⟨c, rest, hts, hc'⟩ := exists_cons_of_nextKind hk hc
    exact ⟨[], c, rest, rfl, hts, hc', .noItem⟩
  · obtain ⟨n, cur, hn, h⟩ := h
    rw [addPresent_of_isPresent (hE.isPresent hn)] at h
    obtain ⟨ms, c, rest, rfl, rfl, hk, hms⟩ := reads_of_moreItems hE hc _ _ h
    exact ⟨n :: ms, c, rest, rfl, rfl, hk, .someItems (hE.lowest hn) hms⟩

theorem reads_of_moreParameters {r : Option (List Node)} (ns : List Node) (cur : List Token)
    (h : (iterate moreParameters ns).Yields cur r ts') :
    ∃ ms c rest, r = some (ns.reverse ++ ms) ∧ ts' = c :: rest ∧ c.kind = .rparen ∧
      Reads (.moreParameters ms) cur.tail ts' := by
  induction ns, cur, h using Yields.iterate_induction with
  | done ns cur h =>
    obtain ⟨-, c, rest, hcur, hk, rfl, rfl⟩ := yields_moreParameters_inr.mp h
    exact ⟨[], c, rest, by rw [List.append_nil], rfl, hk, hcur ▸ .lastParameter⟩
  | more ns cur ns₁ cur₁ h hlt h₁ ih =>
    obtain ⟨comma, name, rest, hcur, hcomma, hname, rfl, rfl⟩ := yields_moreParameters_inl.mp h
    obtain ⟨ms, c, rest', rfl, rfl, hk, hms⟩ := ih
    rw [List.reverse_cons, List.append_assoc]
    exact ⟨_ :: ms, c, rest', rfl, rfl, hk, hcur ▸ .nextParameter hcomma hname hms⟩

theorem reads_of_parameters {r : Option (List Node)} (h : parameters.Yields ts r ts') :
    ∃ ns c rest, r = some ns ∧ ts' = c :: rest ∧ c.kind = .rparen ∧
      Reads (.parameters ns) ts.tail ts' := by
  rw [yields_parameters] at h
  split at h
  · next hk =>
    obtain ⟨rfl, rfl⟩ := h
    obtain ⟨c, rest, hts, hc'⟩ := exists_cons_of_nextKind hk (by decide)
    exact ⟨[], c, rest, rfl, hts, hc', .noParameter⟩
  · obtain ⟨name, rest, hts, hname, h⟩ := h
    obtain ⟨ms, c, rest, rfl, rfl, hk, hms⟩ := reads_of_moreParameters _ _ h
    exact ⟨_ :: ms, c, rest, rfl, rfl, hk, hts ▸ .someParameters hname hms⟩

/-- In front of the closing brace there is no pair. -/
theorem eq_nil_of_reads_pairs {ps : List (Node × Node)} {rest : List Token}
    (h : Reads (.pairs ps) ts rest) (hk : nextKind ts = .rbrace) : ps = [] ∧ ts = rest := by
  -- a pair would begin with its key, and no key begins with the brace
  cases h with
  | noPair => exact ⟨rfl, rfl⟩
  | lastPair last =>
    cases last with
    | pair key => exact absurd hk (nextKind_ne_of_begun (begun_of_reads key) (by decide))
  | nextPair first =>
    cases first with
    | pair key => exact absurd hk (nextKind_ne_of_begun (begun_of_reads key) (by decide))

theorem reads_of_morePairs (hE : Sound E) {r : Option (List (Node × Node))}
    (ps : List (Node × Node)) (cur : List Token)
    (h : (iterate (morePairs E) ps).Yields cur r ts') :
    ∃ qs c rest, r = some (ps.reverse ++ qs) ∧ ts' = c :: rest ∧ c.kind = .rbrace ∧
      Reads (.pairs qs) cur.tail ts' := by
  induction ps, cur, h using Yields.iterate_induction with
  | done ps cur h =>
    rw [yields_morePairs_inr] at h
    split at h
    · next hk =>
      obtain ⟨rfl, rfl⟩ := h
      obtain ⟨c, rest, hcur, hc⟩ := exists_cons_of_nextKind hk (by decide)
      exact ⟨[], c, rest, by rw [List.append_nil], hcur, hc, .noPair⟩
    · obtain ⟨key, _, hkey, colon, _, hcolon, hk, value, _, hvalue, hm, _⟩ := h
      have pair := Reads.pair (hcolon ▸ hE.lowest hkey) hk (hE.lowest hvalue)
      exact absurd hm (not_missing_of_reads pair)
  | more ps cur ps₁ cur₁ h hlt h₁ ih =>
    obtain ⟨-, key, cur', hkey, colon, rest, hcolon, hk, value, cur'', hvalue, -, h⟩ :=
      yields_morePairs_inl.mp h
    obtain ⟨qs, c, rest', rfl, rfl, hc, hqs⟩ := ih
    have pair := Reads.pair (hcolon ▸ hE.lowest hkey) hk (hE.lowest hvalue)
    split at h
    · -- the loop is asked once more behind the last pair, and finds the brace
      next hbrace =>
      obtain ⟨rfl, rfl⟩ := h
      obtain ⟨rfl, heq⟩ := eq_nil_of_reads_pairs hqs hbrace
      rw [List.reverse_cons, List.append_nil]
      exact ⟨[(key, value)], c, rest', rfl, rfl, hc, .lastPair (heq ▸ pair)⟩
    · obtain ⟨comma, rest'', hcomma, hck, rfl, rfl⟩ := h
      rw [List.reverse_cons, List.append_assoc]
      exact ⟨(key, value) :: qs, c, rest', rfl, rfl, hc, .nextPair (hcomma ▸ pair) hck hqs⟩

/-! ### Statements -/

theorem reads_of_statement (hE : Sound E) {rest cur : List Token}
    (h : (statement E t).Yields (t :: rest) n cur) :
    ∃ mid, Reads (.sentence n) (t :: rest) mid ∧ binding mid ≤ 1 ∧
      cur.tail = dropSemicolon mid := by
  unfold statement at h
  split at h
  · next hk =>
    obtain ⟨name, _, rfl, hname, sign, rest', rfl, hsign, value, cur', hv, rfl, rfl⟩ :=
      yields_letStatement.mp h
    exact ⟨cur'.tail, .letSentence hk hname hsign (hE.lowest hv), (hE hv).2,
      tail_pastSemicolon cur'⟩
  · next hk =>
    obtain ⟨value, cur', hv, rfl, rfl⟩ := yields_returnStatement.mp h
    exact ⟨cur'.tail, .returnSentence hk (hE.lowest hv), (hE hv).2, tail_pastSemicolon cur'⟩
  · obtain ⟨value, cur', hv, rfl, rfl⟩ := yields_expressionStatement.mp h
    exact ⟨cur'.tail, .expressionSentence (hE.lowest hv), (hE hv).2, tail_pastSemicolon cur'⟩

/-- What does not bind to the expression in front of it does not continue it. -/
theorem not_continues_of_binding (h : binding ts ≤ 1) :
    ∀ t ∈ ts.head?, ¬ Grammar.Continues t.kind := by
  intro t ht hk
  obtain ⟨rest, rfl⟩ := List.head?_eq_some_iff.mp ht
  simp only [Grammar.Continues, List.mem_cons, List.not_mem_nil, or_false] at hk
  rcases hk with hk | hk | hk <;> rw [binding_cons, hk] at h <;> exact absurd h (by decide)

theorem reads_of_moreStatements (hE : Sound E) {ends : Token.Kind → Bool} {r : List Node}
    (ns : List Node) (ts : List Token)
    (h : (iterate (moreStatements E ends) ns).Yields ts r ts') :
    ∃ ms, r = ns.reverse ++ ms ∧ (∀ t ∈ ts'.head?, ends t.kind) ∧
      Reads (.statements ms) ts ts' := by
  induction ns, ts, h using Yields.iterate_induction with
  | done ns ts h =>
    obtain ⟨hends, rfl, rfl⟩ := yields_moreStatements_inr.mp h
    exact ⟨[], by rw [List.append_nil], hends, .none⟩
  | more ns ts ns₁ ts₁ h hlt h₁ ih =>
    obtain ⟨t, rest, rfl, -, n, cur, hn, rfl, rfl⟩ := yields_moreStatements_inl.mp h
    obtain ⟨ms, rfl, hends, hms⟩ := ih
    obtain ⟨mid, hs, hb, hcur⟩ := reads_of_statement hE hn
    rw [addPresent_of_isPresent hs.complete, List.reverse_cons, List.append_assoc]
    refine ⟨n :: ms, rfl, hends, ?_⟩
    -- whether the statement has a semicolon is seen from what follows it
    rw [hcur] at hms
    unfold dropSemicolon at hms
    split at hms
    · next hk =>
      obtain ⟨semicolon, rest', rfl, hk⟩ := exists_cons_of_nextKind hk (by decide)
      exact .ended hs hk hms
    · exact .unended hs (fun _ => not_continues_of_binding hb) hms

theorem reads_of_block (hE : Sound E) {rest : List Token} (ht : t.kind = .lbrace)
    (h : (block E t).Yields (t :: rest) n ts') : Reads (.block n) (t :: rest) ts'.tail := by
  obtain ⟨ns, cur, hns, rfl, rfl⟩ := yields_block.mp h
  obtain ⟨ms, rfl, hends, hms⟩ := reads_of_moreStatements hE _ _ hns
  cases ts' with
  | nil => exact .unclosed ht hms
  | cons c rest' => exact .closed ht hms (by simpa using hends)

/-! ### Operands -/

theorem inRange_of_integerValue? {value : Int}
    (h : integerValue? t.literal.toList = some value) :
    Grammar.InRange t ∧ value = Nat.ofDigitChars 10 t.literal.toList 0 := by
  simp only [integerValue?] at h
  split at h
  · next range => exact ⟨range, (Option.some.inj h).symm⟩
  · contradiction

theorem reads_of_conditional (hE : Sound E) (ht : t.kind = .ifWord) {rest cur : List Token}
    (h : (conditional E t).Yields (t :: rest) n cur) :
    Reads (.primary n) (t :: rest) cur.tail := by
  obtain ⟨lp, _, rfl, hl, condition, _, hc, rp, _, hrp, hr, brace, rest', rfl, hbrace,
    consequence, cur', hb, h⟩ := yields_conditional.mp h
  have condition := hrp ▸ hE.lowest hc
  have consequence := reads_of_block hE hbrace hb
  split at h
  · next ho =>
    obtain ⟨brace', last, hlast, hbrace', alternative, cur'', ha, rfl, rfl⟩ := h
    obtain ⟨other, rest'', hother, ho⟩ := exists_cons_of_nextKind ho (by decide)
    rw [hother] at consequence hlast
    obtain rfl : rest'' = brace' :: last := hlast
    exact .alternative ht hl condition hr consequence ho (reads_of_block hE hbrace' ha)
  · obtain ⟨rfl, rfl⟩ := h
    exact .conditional ht hl condition hr consequence

theorem reads_of_function (hE : Sound E) (ht : t.kind = .fnWord) {rest cur : List Token}
    (h : (function E t).Yields (t :: rest) n cur) : Reads (.primary n) (t :: rest) cur.tail := by
  obtain ⟨lp, _, rfl, hl, ⟨cur, hp, -⟩ | ⟨names, _, hp, brace, rest', hrest, hbrace, body, cur',
    hb, rfl, rfl⟩⟩ := yields_function.mp h
  · -- parameters that break off make a complaint
    obtain ⟨ns, c, rest', hr, -⟩ := reads_of_parameters hp
    contradiction
  · obtain ⟨ns, rp, rest'', ⟨⟩, rfl, hr, hns⟩ := reads_of_parameters hp
    obtain rfl : rest'' = brace :: rest' := hrest
    exact .function ht hl hns hr (reads_of_block hE hbrace hb)

theorem reads_of_array (hE : Sound E) (ht : t.kind = .lbracket) {rest cur : List Token}
    (h : (array E t).Yields (t :: rest) n cur) : Reads (.primary n) (t :: rest) cur.tail := by
  obtain ⟨_, hes, -⟩ | ⟨elements, _, hes, rfl, rfl⟩ := yields_array.mp h
  · obtain ⟨ns, c, rest', hr, -⟩ := reads_of_items hE (by decide) hes
    contradiction
  · obtain ⟨ns, rb, rest', ⟨⟩, rfl, hr, hns⟩ := reads_of_items hE (by decide) hes
    exact .array ht hns hr

theorem reads_of_hash (hE : Sound E) (ht : t.kind = .lbrace) {rest cur : List Token}
    (h : (hash E t).Yields (t :: rest) n cur) : Reads (.primary n) (t :: rest) cur.tail := by
  obtain ⟨_, hps, -⟩ | ⟨pairs, _, hps, rfl, rfl⟩ := yields_hash.mp h
  · obtain ⟨ps, c, rest', hr, -⟩ := reads_of_morePairs hE _ _ hps
    contradiction
  · obtain ⟨ps, rb, rest', ⟨⟩, rfl, hr, hps⟩ := reads_of_morePairs hE _ _ hps
    exact .hash ht hps hr

/-- An operand is fit for whatever operator comes up behind it: one with a prefix operator
is never called or indexed, as its own operand would have been. -/
theorem reads_of_operand (hE : Sound E) {operand : Parser Node} {rest cur : List Token}
    (ho : operand? E t = some operand) (h : operand.Yields (t :: rest) n cur) {least : Nat}
    (hl : least ≤ max unaryRank (binding cur.tail)) :
    Reads (.expression least n) (t :: rest) cur.tail := by
  have hprefixed : t.kind = .bang ∨ t.kind = .minus → (prefixed E t).Yields (t :: rest) n cur →
      Reads (.expression least n) (t :: rest) cur.tail := by
    intro hk h
    obtain ⟨right, _, hr, rfl, rfl⟩ := yields_prefixed.mp h
    obtain ⟨hr, hb⟩ := hE hr
    have : Level.prefixed.rank = unaryRank := rfl
    have : leastRank .prefixed = unaryRank := rfl
    exact .prefixed (by omega) (by simpa [Grammar.IsPrefix] using hk) hr
  unfold operand? at ho
  split at ho <;> cases ho
  case h_1 hk =>
    obtain ⟨rfl, rfl⟩ := yields_pure.mp h
    exact .simple (.identifier hk)
  case h_2 hk =>
    obtain ⟨value, hv, rfl, rfl⟩ := yields_integer.mp h
    obtain ⟨range, rfl⟩ := inRange_of_integerValue? hv
    exact .simple (.integer hk range)
  case h_3 hk =>
    obtain ⟨rfl, rfl⟩ := yields_pure.mp h
    exact .simple (.string hk)
  case h_4 hk =>
    obtain ⟨rfl, rfl⟩ := yields_pure.mp h
    exact .simple (.true hk)
  case h_5 hk =>
    obtain ⟨rfl, rfl⟩ := yields_pure.mp h
    exact .simple (.false hk)
  case h_6 hk => exact hprefixed (.inl hk) h
  case h_7 hk => exact hprefixed (.inr hk) h
  case h_8 hk =>
    obtain ⟨inner, _, hi, close, rest', hclose, hr, rfl, rfl⟩ := yields_grouped.mp h
    exact .simple (.grouped hk (hclose ▸ hE.lowest hi) hr)
  case h_9 hk => exact .simple (reads_of_conditional hE hk h)
  case h_10 hk => exact .simple (reads_of_function hE hk h)
  case h_11 hk => exact .simple (reads_of_array hE hk h)
  case h_12 hk => exact .simple (reads_of_hash hE hk h)

/-! ### Operators -/

/-- What binds to an expression is an infix operator, or it opens a call or a subscript. -/
theorem isInfix_of_rank {kind : Token.Kind} (h : 1 < (Level.ofKind kind).rank)
    (hl : kind ≠ .lparen) (hi : kind ≠ .lbracket) : Grammar.IsInfix kind := by
  cases kind <;> revert h hl hi <;> decide

/-- The rank that makes an expression fit to be the left operand of what comes up behind it
at some level. -/
def fitRank (level : Level) (rest : List Token) : Nat :=
  max (leastRank level) (min (binding rest) operandRank)

/-- What is fit covers whatever the token that comes up asks of it. -/
theorem reads_of_fit {left : Node} {rest : List Token} {level : Level} {k : Nat}
    (h : Reads (.expression (fitRank level (t :: rest)) left) ts (t :: rest))
    (hk : k ≤ (Level.ofKind t.kind).rank) (hk' : k ≤ operandRank) :
    Reads (.expression k left) ts (t :: rest) :=
  h.weaken (Nat.le_trans (Nat.le_min.mpr ⟨hk, hk'⟩) (Nat.le_max_right _ _))

/-- What is extended is fit again for whatever comes up next. -/
theorem reads_of_extend (hE : Sound E) {left : Node} {rest cur : List Token} {level : Level}
    (hlevel : level.rank < (Level.ofKind t.kind).rank)
    (hleft : Reads (.expression (fitRank level (t :: rest)) left) ts (t :: rest))
    (h : (extend E left t).Yields (t :: rest) n cur) :
    Reads (.expression (fitRank level cur.tail) n) ts cur.tail := by
  by_cases hl : t.kind = .lparen
  · have callee := reads_of_fit hleft (k := operandRank) (by rw [hl]; decide) (Nat.le_refl _)
    obtain ⟨_, has, -⟩ | ⟨arguments, _, has, rfl, rfl⟩ := (yields_extend_call hl).mp h
    · obtain ⟨as, c, rest', hr, -⟩ := reads_of_items hE (by decide) has
      contradiction
    · obtain ⟨as, rp, rest', ⟨⟩, rfl, hr, has⟩ := reads_of_items hE (by decide) has
      exact .call callee hl has hr
  by_cases hi : t.kind = .lbracket
  · have left := reads_of_fit hleft (k := operandRank) (by rw [hi]; decide) (Nat.le_refl _)
    obtain ⟨subscript, _, hs, close, rest', hclose, hr, rfl, rfl⟩ :=
      (yields_extend_index hi).mp h
    exact .index left hi (hclose ▸ hE.lowest hs) hr
  · obtain ⟨right, _, hr, rfl, rfl⟩ := (yields_extend_operator hl hi).mp h
    obtain ⟨hr, hb⟩ := hE hr
    have operator : Grammar.IsInfix t.kind :=
      isInfix_of_rank (Nat.lt_of_le_of_lt (by cases level <;> decide) hlevel) hl hi
    obtain ⟨-, hlt⟩ := rank_of_isInfix operator
    have : unaryRank < operandRank := by decide
    refine .infixed ?_ (reads_of_fit hleft (Nat.le_refl _) (by omega)) operator (hr.weaken ?_)
    · unfold fitRank leastRank
      omega
    · unfold leastRank
      omega

theorem reads_of_climb (hE : Sound E) {level : Level} {ts' : List Token} {n : Node} (left : Node)
    (cur : List Token) (h : (iterate (climb E level) left).Yields cur n ts')
    (hleft : Reads (.expression (fitRank level cur.tail) left) ts cur.tail) :
    Reads (.expression (leastRank level) n) ts ts'.tail ∧ binding ts'.tail ≤ level.rank := by
  induction left, cur, h using Yields.iterate_induction with
  | done left cur h =>
    -- nothing binds any more, so of the two bounds only that of the level is left
    obtain ⟨hb, rfl, rfl⟩ := yields_climb_inr.mp h
    exact ⟨hleft.weaken (Nat.le_max_left _ _), hb⟩
  | more left cur left₁ cur₁ h hlt h₁ ih =>
    obtain ⟨t, rest, hcur, hlevel, hx⟩ := yields_climb_inl.mp h
    exact ih (reads_of_extend hE hlevel (hcur ▸ hleft) hx)

/-- The parser reads phrases only. -/
theorem sound_expression (depth : Nat) : Sound (expression depth) := by
  induction depth with
  | zero => exact fun _ _ _ _ h => absurd h not_yields_tooDeep
  | succ depth ih =>
    intro level ts n ts' h
    obtain ⟨t, rest, rfl, operand, ho, left, cur, hleft, hclimb⟩ := yields_expression.mp h
    refine reads_of_climb ih left cur hclimb (reads_of_operand ih ho hleft ?_)
    unfold fitRank leastRank
    omega

/-- A program that is read without a complaint is a phrase, down to the end of the text. -/
theorem reads_of_yields_program {depth : Nat}
    (h : (program (expression depth)).Yields ts n ts') :
    ∃ ns, n = .program ns ∧ Reads (.statements ns) ts [] := by
  obtain ⟨ns, _, hns, rfl, rfl⟩ := yields_program.mp h
  obtain ⟨ms, rfl, hends, hms⟩ := reads_of_moreStatements (sound_expression depth) _ _ hns
  cases ts' with
  | nil => exact ⟨_, rfl, hms⟩
  | cons t rest => exact absurd (hends t rfl) Bool.false_ne_true

end Monkey.Parse
