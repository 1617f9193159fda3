import Monkey.Proofs.Syntax.Phrase

/-!
# Phrases are read without complaints

Every phrase is read as the tree that it stands for, provided that what follows lets it end
there: nothing binds to an expression that could not be its operator, no `else` follows a
consequence, and a list stands in front of its closing token.

A depth of nesting greater than the number of tokens is always enough, because each
construct has gone over a token before it asks for an expression further down.

## Main definitions

* `IsLoose` — the kinds of token that go on with no expression.
* `Accepted` — what the parser makes of a phrase.

## Main results

* `accepted_of_reads` — every phrase is accepted.
* `yields_program_of_reads` — a row of statements is read as a program.
-/

namespace Monkey.Parse

open Monkey.Parser Phrase

/-! ### What follows a phrase -/

/-- The kinds of token that bind to no expression in front of them, `else` apart. -/
def IsLoose (kind : Token.Kind) : Prop :=
  (Level.ofKind kind).rank ≤ 1 ∧ kind ≠ .elseWord

instance (kind : Token.Kind) : Decidable (IsLoose kind) :=
  inferInstanceAs (Decidable (_ ∧ _))

theorem isLoose_of_kind {t : Token} {kind : Token.Kind} {rest : List Token}
    (h : t.kind = kind) (hk : IsLoose kind) : IsLoose (nextKind (t :: rest)) := by
  rw [nextKind_cons, h]
  exact hk

/-- What follows an expression of some rank: what binds to it does so no more tightly, calls
and subscripts apart, which bind to every operand. -/
def Fits (least : Nat) (rest : List Token) : Prop :=
  min (binding rest) operandRank ≤ least ∧ nextKind rest ≠ .elseWord

/-- A test that finds the end of a list of statements: it holds of what follows, and of no
token but a closing brace. -/
def EndsAt (ends : Token.Kind → Bool) (rest : List Token) : Prop :=
  (∀ t ∈ rest.head?, ends t.kind) ∧ ∀ kind, ends kind → kind = .rbrace

/-- The brackets that close a list of items. -/
def Closes (kind : Token.Kind) : Prop := kind = .rparen ∨ kind = .rbracket

/-- What the parser makes of a phrase.  An expression may be the left operand of what
follows it, so it is described by how reading goes on behind it. -/
def Accepted : Phrase → List Token → List Token → Prop
  | .statements ns, ts, rest => ∀ depth ends acc, ts.length < depth → EndsAt ends rest →
    (iterate (moreStatements (expression depth) ends) acc).Yields ts (acc.reverse ++ ns) rest
  | .sentence n, ts, rest => ∀ depth, ts.length < depth → IsLoose (nextKind rest) →
    ∀ t tail, ts = t :: tail → ∃ cur, (statement (expression depth) t).Yields ts n cur ∧
      cur.tail = dropSemicolon rest
  | .expression least n, ts, rest => ∀ depth level, ts.length ≤ depth →
    leastRank level ≤ least → level.rank ≤ unaryRank → Fits least rest →
    ∃ cur, cur.tail = rest ∧ ∀ m ts',
      (iterate (climb (expression depth) level) n).Yields cur m ts' →
      (expression (depth + 1) level).Yields ts m ts'
  | .primary n, ts, rest => ∀ depth, ts.length ≤ depth → nextKind rest ≠ .elseWord →
    ∃ t tail operand, ts = t :: tail ∧ operand? (expression depth) t = some operand ∧
      ∃ cur, operand.Yields ts n cur ∧ cur.tail = rest
  | .items ns, ts, rest => ∀ depth close t, ts.length < depth → Closes close →
    nextKind rest = close →
    (items (expression depth) close).Yields (t :: ts) (some ns) rest
  | .moreItems ns, ts, rest => ∀ depth close acc cur, ts.length < depth → Closes close →
    nextKind rest = close → cur.tail = ts →
    (iterate (moreItems (expression depth) close) acc).Yields cur (some (acc.reverse ++ ns)) rest
  | .block n, ts, rest => ∀ depth t tail, ts.length < depth → ts = t :: tail →
    t.kind = .lbrace ∧ ∃ cur, (block (expression depth) t).Yields ts n cur ∧ cur.tail = rest
  | .parameters ns, ts, rest => ∀ t, nextKind rest = .rparen →
    parameters.Yields (t :: ts) (some ns) rest
  | .moreParameters ns, ts, rest => ∀ acc cur, nextKind rest = .rparen → cur.tail = ts →
    (iterate moreParameters acc).Yields cur (some (acc.reverse ++ ns)) rest
  | .pairs ps, ts, rest => ∀ depth acc cur, ts.length < depth → nextKind rest = .rbrace →
    cur.tail = ts →
    (iterate (morePairs (expression depth)) acc).Yields cur (some (acc.reverse ++ ps)) rest
  | .pair k v, ts, rest => ∀ depth, ts.length < depth → IsLoose (nextKind rest) →
    nextKind ts ≠ .rbrace ∧ ∃ cur colon tail cur',
      (expression depth .lowest).Yields ts k cur ∧ cur.tail = colon :: tail ∧
      colon.kind = .colon ∧ (expression depth .lowest).Yields tail v cur' ∧ cur'.tail = rest

/-- An expression ends where nothing binds to it at the level that was asked for. -/
theorem Accepted.yields {least depth : Nat} {level : Level} {n : Node} {ts rest : List Token}
    (h : Accepted (.expression least n) ts rest) (hd : ts.length < depth)
    (hl : leastRank level ≤ least) (hu : level.rank ≤ unaryRank)
    (hb : binding rest ≤ level.rank) (he : nextKind rest ≠ .elseWord) :
    ∃ cur, (expression depth level).Yields ts n cur ∧ cur.tail = rest := by
  obtain ⟨depth, rfl⟩ := Nat.exists_eq_add_one_of_ne_zero (Nat.ne_zero_of_lt hd)
  have fits : min (binding rest) operandRank ≤ least := by
    unfold leastRank at hl
    omega
  obtain ⟨cur, hcur, h⟩ := h depth level (Nat.le_of_lt_succ hd) hl hu ⟨fits, he⟩
  refine ⟨cur, h n cur ?_, hcur⟩
  exact yields_iterate.mpr (.inl (yields_climb_inr.mpr ⟨hcur ▸ hb, rfl, rfl⟩))

theorem Accepted.lowest {depth : Nat} {n : Node} {ts rest : List Token}
    (h : Accepted (.expression 2 n) ts rest) (hd : ts.length < depth)
    (hr : IsLoose (nextKind rest)) :
    ∃ cur, (expression depth .lowest).Yields ts n cur ∧ cur.tail = rest :=
  h.yields hd (by decide) (by decide) hr.1 hr.2

variable {t : Token} {n : Node} {ns : List Node} {ts ts' rest : List Token}

/-! ### Lists -/

theorem Closes.ne_eof {close : Token.Kind} (h : Closes close) : close ≠ .eof := by
  rcases h with rfl | rfl <;> decide

theorem Closes.ne_comma {close : Token.Kind} (h : Closes close) : close ≠ .comma := by
  rcases h with rfl | rfl <;> decide

theorem Closes.isLoose {close : Token.Kind} (h : Closes close) : IsLoose close := by
  rcases h with rfl | rfl <;> decide

theorem Closes.not_begins {close : Token.Kind} (h : Closes close) (ts : List Token)
    (hts : nextKind ts = close) : ¬ Begun ts := by
  intro hbegun
  rcases h with rfl | rfl <;> exact absurd hts (nextKind_ne_of_begun hbegun (by decide))

/-- Behind an item there is a comma, or the list is closed. -/
theorem isLoose_of_moreItems {close : Token.Kind} (hns : Reads (.moreItems ns) ts rest)
    (hc : Closes close) (hk : nextKind rest = close) : IsLoose (nextKind ts) := by
  cases hns with
  | lastItem => exact hk ▸ hc.isLoose
  | nextItem h => exact isLoose_of_kind h (by decide)

theorem accepted_lastItem : Accepted (.moreItems []) ts ts := by
  intro depth close acc cur hd hc hk hcur
  obtain ⟨c, rest, rfl, hck⟩ := exists_cons_of_nextKind hk hc.ne_eof
  refine yields_iterate.mpr (.inl ((yields_moreItems_inr hc.ne_eof).mpr ⟨?_, c, rest, hcur, hck, ?_⟩))
  · rw [hcur, hk]
    exact hc.ne_comma
  · rw [List.append_nil]
    exact ⟨rfl, rfl⟩

theorem accepted_nextItem {comma : Token} (hcomma : comma.kind = .comma)
    (hn : Reads (.expression 2 n) ts ts') (next : Accepted (.expression 2 n) ts ts')
    (hns : Reads (.moreItems ns) ts' rest) (others : Accepted (.moreItems ns) ts' rest) :
    Accepted (.moreItems (n :: ns)) (comma :: ts) rest := by
  intro depth close acc cur hd hc hk hcur
  have hlt : ts.length < depth := Nat.lt_of_succ_lt hd
  obtain ⟨cur', h, hcur'⟩ := next.lowest hlt (isLoose_of_moreItems hns hc hk)
  have hlt' : ts'.length < depth := Nat.lt_of_le_of_lt hn.length_le hlt
  have h' := others depth close (n :: acc) cur' hlt' hc hk hcur'
  rw [List.reverse_cons, List.append_assoc] at h'
  refine yields_iterate.mpr (.inr ⟨n :: acc, cur', (yields_moreItems_inl hc.ne_eof).mpr
    ⟨comma, ts, hcur, hcomma, n, h, (addPresent_of_isPresent hn.complete).symm⟩, ?_, h'⟩)
  -- the loop only goes on if it has gone over something: here it was the comma
  have := h.length_le
  have := length_of_tail_eq_cons hcur
  omega

theorem accepted_noItem : Accepted (.items []) ts ts := by
  intro depth close t hd hc hk
  rw [yields_items, List.tail_cons, if_pos hk]
  exact ⟨rfl, rfl⟩

theorem accepted_someItems (hn : Reads (.expression 2 n) ts ts')
    (first : Accepted (.expression 2 n) ts ts') (hns : Reads (.moreItems ns) ts' rest)
    (others : Accepted (.moreItems ns) ts' rest) : Accepted (.items (n :: ns)) ts rest := by
  intro depth close t hd hc hk
  obtain ⟨cur, h, hcur⟩ := first.lowest hd (isLoose_of_moreItems hns hc hk)
  rw [yields_items, List.tail_cons, if_neg fun hts => hc.not_begins ts hts (begun_of_reads hn)]
  refine ⟨n, cur, h, ?_⟩
  rw [addPresent_of_isPresent hn.complete]
  have hlt : ts'.length < depth := Nat.lt_of_le_of_lt hn.length_le hd
  exact others depth close [n] cur hlt hc hk hcur

theorem accepted_lastParameter : Accepted (.moreParameters []) ts ts := by
  intro acc cur hk hcur
  obtain ⟨c, rest, rfl, hck⟩ := exists_cons_of_nextKind hk (by decide)
  refine yields_iterate.mpr (.inl (yields_moreParameters_inr.mpr ⟨?_, c, rest, hcur, hck, ?_⟩))
  · rw [hcur, hk]
    decide
  · rw [List.append_nil]
    exact ⟨rfl, rfl⟩

theorem accepted_nextParameter {comma name : Token} (hcomma : comma.kind = .comma)
    (hname : name.kind = .ident) (others : Accepted (.moreParameters ns) ts rest) :
    Accepted (.moreParameters (.identifier name name.literal :: ns)) (comma :: name :: ts) rest := by
  intro acc cur hk hcur
  have h := others (.identifier name name.literal :: acc) (name :: ts) hk rfl
  rw [List.reverse_cons, List.append_assoc] at h
  refine yields_iterate.mpr (.inr ⟨_, _, yields_moreParameters_inl.mpr
    ⟨comma, name, ts, hcur, hcomma, hname, rfl, rfl⟩, ?_, h⟩)
  have hlen : cur.length = (name :: ts).length + 2 := length_of_tail_eq_cons hcur
  omega

theorem accepted_noParameter : Accepted (.parameters []) ts ts := by
  intro t hk
  rw [yields_parameters, List.tail_cons, if_pos hk]
  exact ⟨rfl, rfl⟩

theorem accepted_someParameters {name : Token} (hname : name.kind = .ident)
    (others : Accepted (.moreParameters ns) ts rest) :
    Accepted (.parameters (.identifier name name.literal :: ns)) (name :: ts) rest := by
  intro t hk
  have hne : nextKind (name :: ts) ≠ .rparen := by
    rw [nextKind_cons, hname]
    decide
  rw [yields_parameters, List.tail_cons, if_neg hne]
  exact ⟨name, ts, rfl, hname, others [_] (name :: ts) hk rfl⟩

/-! ### Hashes -/

variable {k v : Node} {ps : List (Node × Node)}

theorem accepted_pair {colon : Token} (hk : Reads (.expression 2 k) ts (colon :: ts'))
    (key : Accepted (.expression 2 k) ts (colon :: ts')) (hc : colon.kind = .colon)
    (value : Accepted (.expression 2 v) ts' rest) : Accepted (.pair k v) ts rest := by
  intro depth hd loose
  have hcolon : IsLoose (nextKind (colon :: ts')) := isLoose_of_kind hc (by decide)
  have hlt : ts'.length < depth := Nat.lt_trans hk.length_le hd
  obtain ⟨cur, h, hcur⟩ := key.lowest hd hcolon
  obtain ⟨cur', h', hcur'⟩ := value.lowest hlt loose
  refine ⟨?_, cur, colon, ts', cur', h, hcur, hc, h', hcur'⟩
  exact nextKind_ne_of_begun (begun_of_reads hk) (by decide)

theorem accepted_noPair : Accepted (.pairs []) ts ts := by
  intro depth acc cur hd hk hcur
  refine yields_iterate.mpr (.inl (yields_morePairs_inr.mpr ?_))
  rw [hcur, if_pos hk, List.append_nil]
  exact ⟨rfl, rfl⟩

/-- One round of the loop over the pairs: it goes over a pair, and over the comma behind it
if there is one. -/
theorem yields_morePairs_of_pair {depth : Nat} {acc : List (Node × Node)} {cur : List Token}
    (hp : Reads (.pair k v) ts rest) (pair : Accepted (.pair k v) ts rest)
    (hd : ts.length < depth) (hcur : cur.tail = ts)
    (hk : nextKind rest = .rbrace ∨ nextKind rest = .comma) :
    ∃ cur', (morePairs (expression depth) acc).Yields cur (.inl ((k, v) :: acc)) cur' ∧
      cur'.tail = (if nextKind rest = .rbrace then rest else rest.tail) ∧
      cur'.length < cur.length := by
  obtain ⟨hts, cur', colon, tail, cur'', h, hcur', hc, h', hcur''⟩ :=
    pair depth hd (by rcases hk with hk | hk <;> rw [hk] <;> decide)
  have present := not_missing_of_reads hp
  have hle := h.length_le
  have hle' := h'.length_le
  have hlen := length_of_tail_eq_cons hcur'
  have hcurlen : cur.tail.length = ts.length := by rw [hcur]
  rw [List.length_tail] at hcurlen
  rcases hk with hk | hk
  · -- the brace is left to the next round
    refine ⟨cur'', yields_morePairs_inl.mpr ⟨hcur ▸ hts, k, cur', hcur ▸ h, colon, tail, hcur',
      hc, v, cur'', h', present, ?_⟩, ?_, by omega⟩
    · rw [if_pos (hcur'' ▸ hk)]
      exact ⟨rfl, rfl⟩
    · rw [if_pos hk, hcur'']
  · obtain ⟨comma, rest', rfl, hcomma⟩ := exists_cons_of_nextKind hk (by decide)
    have hlen' := length_of_tail_eq_cons hcur''
    have hne : nextKind (comma :: rest') ≠ .rbrace := by rw [hk]; decide
    refine ⟨comma :: rest', yields_morePairs_inl.mpr ⟨hcur ▸ hts, k, cur', hcur ▸ h, colon, tail,
      hcur', hc, v, cur'', h', present, ?_⟩, ?_, by rw [List.length_cons]; omega⟩
    · rw [hcur'', if_neg hne]
      exact ⟨comma, rest', rfl, hcomma, rfl, rfl⟩
    · rw [if_neg hne]

theorem accepted_lastPair (hp : Reads (.pair k v) ts rest) (last : Accepted (.pair k v) ts rest) :
    Accepted (.pairs [(k, v)]) ts rest := by
  intro depth acc cur hd hk hcur
  obtain ⟨cur', h, hcur', hlt⟩ := yields_morePairs_of_pair hp last hd hcur (.inl hk)
  rw [if_pos hk] at hcur'
  have hlt' : rest.length < depth := Nat.lt_of_le_of_lt hp.length_le hd
  have hend := accepted_noPair depth ((k, v) :: acc) cur' hlt' hk hcur'
  rw [List.append_nil, List.reverse_cons] at hend
  exact yields_iterate.mpr (.inr ⟨_, cur', h, hlt, hend⟩)

theorem accepted_nextPair {comma : Token} (hp : Reads (.pair k v) ts (comma :: ts'))
    (first : Accepted (.pair k v) ts (comma :: ts')) (hc : comma.kind = .comma)
    (others : Accepted (.pairs ps) ts' rest) : Accepted (.pairs ((k, v) :: ps)) ts rest := by
  intro depth acc cur hd hk hcur
  obtain ⟨cur', h, hcur', hlt⟩ := yields_morePairs_of_pair hp first hd hcur (.inr hc)
  have hne : nextKind (comma :: ts') ≠ .rbrace := by
    rw [nextKind_cons, hc]
    decide
  rw [if_neg hne] at hcur'
  have hlt' : ts'.length < depth := Nat.lt_trans hp.length_le hd
  have hmore := others depth ((k, v) :: acc) cur' hlt' hk hcur'
  rw [List.reverse_cons, List.append_assoc] at hmore
  exact yields_iterate.mpr (.inr ⟨_, cur', h, hlt, hmore⟩)

/-! ### Statements -/

theorem accepted_letSentence {word name sign : Token} (hw : word.kind = .letWord)
    (hn : name.kind = .ident) (hs : sign.kind = .assign)
    (value : Accepted (.expression 2 n) ts rest) :
    Accepted (.sentence (.letStatement word (.identifier name name.literal) n))
      (word :: name :: sign :: ts) rest := by
  rintro depth hd loose _ _ ⟨⟩
  simp only [List.length_cons] at hd
  have hlt : ts.length < depth := by omega
  obtain ⟨cur, h, hcur⟩ := value.lowest hlt loose
  refine ⟨pastSemicolon cur, ?_, hcur ▸ tail_pastSemicolon cur⟩
  simp only [statement, hw]
  exact yields_letStatement.mpr ⟨name, sign :: ts, rfl, hn, sign, ts, rfl, hs, n, cur, h, rfl, rfl⟩

theorem accepted_returnSentence {word : Token} (hw : word.kind = .returnWord)
    (value : Accepted (.expression 2 n) ts rest) :
    Accepted (.sentence (.returnStatement word n)) (word :: ts) rest := by
  rintro depth hd loose _ _ ⟨⟩
  obtain ⟨cur, h, hcur⟩ := value.lowest (Nat.lt_of_succ_lt hd) loose
  refine ⟨pastSemicolon cur, ?_, hcur ▸ tail_pastSemicolon cur⟩
  simp only [statement, hw]
  exact yields_returnStatement.mpr ⟨n, cur, h, rfl, rfl⟩

theorem accepted_expressionSentence (hv : Reads (.expression 2 n) (t :: ts) rest)
    (value : Accepted (.expression 2 n) (t :: ts) rest) :
    Accepted (.sentence (.expressionStatement t n)) (t :: ts) rest := by
  rintro depth hd loose _ _ ⟨⟩
  obtain ⟨cur, h, hcur⟩ := value.lowest hd loose
  refine ⟨pastSemicolon cur, ?_, hcur ▸ tail_pastSemicolon cur⟩
  -- an expression begins with none of the words that begin the other statements
  obtain ⟨_, _, ⟨⟩, ht⟩ := begun_of_reads hv
  unfold statement
  split
  · next hk => exact absurd (hk ▸ ht) (by decide)
  · next hk => exact absurd (hk ▸ ht) (by decide)
  · exact yields_expressionStatement.mpr ⟨n, cur, h, rfl, rfl⟩

/-- At the end of a list of statements the text ends, or a closing brace comes. -/
theorem EndsAt.nextKind {ends : Token.Kind → Bool} (h : EndsAt ends rest) :
    nextKind rest = .eof ∨ nextKind rest = .rbrace := by
  cases rest with
  | nil => exact .inl rfl
  | cons t rest => exact .inr (h.2 _ (h.1 t rfl))

/-- What comes behind a statement without a semicolon goes on with no expression, and is no
semicolon. -/
theorem isLoose_of_apart {ends : Token.Kind → Bool} (hns : Reads (.statements ns) ts rest)
    (apart : ts ≠ rest → ∀ t ∈ ts.head?, ¬ Grammar.Continues t.kind) (hends : EndsAt ends rest) :
    IsLoose (nextKind ts) ∧ nextKind ts ≠ .semicolon := by
  -- a token that starts a statement and continues none is loose
  have key : ∀ kind, Starts kind → ¬ Grammar.Continues kind →
      IsLoose kind ∧ kind ≠ .semicolon := by
    intro kind
    cases kind <;> decide
  by_cases heq : ts = rest
  · rw [heq]
    rcases hends.nextKind with hk | hk <;> rw [hk] <;> decide
  · obtain rfl | ⟨t, tail, rfl, ht⟩ := started_of_reads hns
    · contradiction
    · exact key t.kind ht (apart heq t rfl)

theorem accepted_none : Accepted (.statements []) ts ts := by
  intro depth ends acc hd hends
  rw [List.append_nil]
  exact yields_iterate.mpr (.inl (yields_moreStatements_inr.mpr ⟨hends.1, rfl, rfl⟩))

/-- One round of the loop over the statements: it goes over a statement, and over the semicolon
behind it if there is one. -/
theorem yields_moreStatements_of_sentence {mid : List Token} {depth : Nat}
    {ends : Token.Kind → Bool} (hn : Reads (.sentence n) ts mid)
    (first : Accepted (.sentence n) ts mid) (hmid : IsLoose (nextKind mid))
    (hd : ts.length < depth) (hends : ∀ kind, ends kind → kind = .rbrace) (acc : List Node) :
    (moreStatements (expression depth) ends acc).Yields ts (.inl (n :: acc)) (dropSemicolon mid) ∧
      (dropSemicolon mid).length < ts.length := by
  obtain ⟨t, tail, rfl, ht⟩ : Started ts := hn.headed
  obtain ⟨cur, h, hcur⟩ := first depth hd hmid t tail rfl
  have hgo : ends t.kind = false := by
    rw [Bool.eq_false_iff]
    exact fun he => absurd (hends _ he ▸ ht) (by decide)
  have hlt : cur.tail.length < (t :: tail).length := by
    have := h.length_le
    simp only [List.length_tail, List.length_cons] at *
    omega
  rw [← hcur]
  exact ⟨yields_moreStatements_inl.mpr
    ⟨t, tail, rfl, hgo, n, cur, h, (addPresent_of_isPresent hn.complete).symm, rfl⟩, hlt⟩

theorem accepted_statements {mid : List Token} (hn : Reads (.sentence n) ts mid)
    (first : Accepted (.sentence n) ts mid) (hmid : IsLoose (nextKind mid))
    (others : Accepted (.statements ns) (dropSemicolon mid) rest) :
    ∀ depth ends acc, ts.length < depth → EndsAt ends rest →
      (iterate (moreStatements (expression depth) ends) acc).Yields ts
        (acc.reverse ++ n :: ns) rest := by
  intro depth ends acc hd hends
  obtain ⟨h, hlt⟩ := yields_moreStatements_of_sentence hn first hmid hd hends.2 acc
  have hmore := others depth ends (n :: acc) (Nat.lt_trans hlt hd) hends
  rw [List.reverse_cons, List.append_assoc] at hmore
  exact yields_iterate.mpr (.inr ⟨n :: acc, dropSemicolon mid, h, hlt, hmore⟩)

theorem accepted_ended (hn : Reads (.sentence n) ts (t :: ts'))
    (first : Accepted (.sentence n) ts (t :: ts')) (hk : t.kind = .semicolon)
    (others : Accepted (.statements ns) ts' rest) : Accepted (.statements (n :: ns)) ts rest := by
  have hdrop : dropSemicolon (t :: ts') = ts' := if_pos hk
  have hloose : IsLoose (nextKind (t :: ts')) := isLoose_of_kind hk (by decide)
  exact accepted_statements hn first hloose (hdrop.symm ▸ others)

theorem accepted_unended (hn : Reads (.sentence n) ts ts')
    (first : Accepted (.sentence n) ts ts')
    (apart : ts' ≠ rest → ∀ t ∈ ts'.head?, ¬ Grammar.Continues t.kind)
    (hns : Reads (.statements ns) ts' rest) (others : Accepted (.statements ns) ts' rest) :
    Accepted (.statements (n :: ns)) ts rest := by
  intro depth ends acc hd hends
  obtain ⟨loose, hne⟩ := isLoose_of_apart hns apart hends
  have hdrop : dropSemicolon ts' = ts' := if_neg hne
  exact accepted_statements hn first loose (hdrop.symm ▸ others) depth ends acc hd hends

theorem yields_block_of_accepted {depth : Nat} {brace : Token}
    (inner : Accepted (.statements ns) ts rest) (hd : ts.length < depth)
    (hr : ∀ t ∈ rest.head?, t.kind = .rbrace) :
    (block (expression depth) brace).Yields (brace :: ts) (.block brace ns) rest := by
  refine yields_block.mpr ⟨ns, rest, inner depth _ [] hd ⟨?_, ?_⟩, rfl, rfl⟩
  · exact fun t ht => decide_eq_true (hr t ht)
  · exact fun kind hk => of_decide_eq_true hk

theorem accepted_closed {lb rb : Token} (hl : lb.kind = .lbrace)
    (inner : Accepted (.statements ns) ts (rb :: rest)) (hr : rb.kind = .rbrace) :
    Accepted (.block (.block lb ns)) (lb :: ts) rest := by
  rintro depth _ _ hd ⟨⟩
  refine ⟨hl, rb :: rest, yields_block_of_accepted inner (Nat.lt_of_succ_lt hd) ?_, rfl⟩
  rintro _ ⟨⟩
  exact hr

theorem accepted_unclosed {lb : Token} (hl : lb.kind = .lbrace)
    (inner : Accepted (.statements ns) ts []) :
    Accepted (.block (.block lb ns)) (lb :: ts) [] := by
  rintro depth _ _ hd ⟨⟩
  refine ⟨hl, [], yields_block_of_accepted inner (Nat.lt_of_succ_lt hd) ?_, rfl⟩
  rintro _ ⟨⟩

theorem exists_cons_of_reads_block (h : Reads (.block n) ts rest) :
    ∃ brace tail, ts = brace :: tail := by
  cases h <;> exact ⟨_, _, rfl⟩

/-! ### Operands -/

/-- The construct that a token begins, when it is read by itself. -/
theorem accepted_word (h : ∀ E : Expressions, operand? E t = some (pure n)) :
    Accepted (.primary n) (t :: rest) rest :=
  fun depth _ _ => ⟨t, rest, pure n, rfl, h (expression depth), t :: rest,
    yields_pure.mpr ⟨rfl, rfl⟩, rfl⟩

theorem integerValue?_of_inRange (h : Grammar.InRange t) :
    integerValue? t.literal.toList = some (Nat.ofDigitChars 10 t.literal.toList 0 : Int) := by
  simp only [integerValue?]
  exact if_pos h

theorem accepted_integer (hk : t.kind = .int) (range : Grammar.InRange t) :
    Accepted (.primary (.integer t (Nat.ofDigitChars 10 t.literal.toList 0))) (t :: rest) rest := by
  intro depth hd he
  refine ⟨t, rest, integer t, rfl, by simp only [operand?, hk], t :: rest, ?_, rfl⟩
  exact yields_integer.mpr ⟨_, integerValue?_of_inRange range, rfl, rfl⟩

theorem accepted_grouped {lp rp : Token} (hl : lp.kind = .lparen)
    (inner : Accepted (.expression 2 n) ts (rp :: rest)) (hr : rp.kind = .rparen) :
    Accepted (.primary n) (lp :: ts) rest := by
  intro depth hd he
  have hloose : IsLoose (nextKind (rp :: rest)) := isLoose_of_kind hr (by decide)
  obtain ⟨cur, h, hcur⟩ := inner.lowest hd hloose
  refine ⟨lp, ts, grouped (expression depth), rfl, by simp only [operand?, hl], rp :: rest, ?_,
    rfl⟩
  exact yields_grouped.mpr ⟨n, cur, h, rp, rest, hcur, hr, rfl, rfl⟩

theorem accepted_conditional {word lp rp : Token} {c b : Node} (hw : word.kind = .ifWord)
    (hl : lp.kind = .lparen) (hc : Reads (.expression 2 c) ts (rp :: ts'))
    (condition : Accepted (.expression 2 c) ts (rp :: ts')) (hr : rp.kind = .rparen)
    (hb : Reads (.block b) ts' rest) (consequence : Accepted (.block b) ts' rest) :
    Accepted (.primary (.conditional word c b .missing)) (word :: lp :: ts) rest := by
  intro depth hd he
  have hlt : ts.length < depth := Nat.lt_of_succ_lt hd
  have hlt' : ts'.length < depth := Nat.lt_trans hc.length_le hlt
  have hloose : IsLoose (nextKind (rp :: ts')) := isLoose_of_kind hr (by decide)
  obtain ⟨cur, h, hcur⟩ := condition.lowest hlt hloose
  obtain ⟨brace, tail, rfl⟩ := exists_cons_of_reads_block hb
  obtain ⟨hbrace, cur', h', hcur'⟩ := consequence depth brace tail hlt' rfl
  refine ⟨word, lp :: ts, conditional (expression depth) word, rfl, by simp only [operand?, hw],
    cur', ?_, hcur'⟩
  refine yields_conditional.mpr ⟨lp, ts, rfl, hl, c, cur, h, rp, _, hcur, hr, brace, tail, rfl,
    hbrace, b, cur', h', ?_⟩
  rw [hcur', if_neg he]
  exact ⟨rfl, rfl⟩

theorem accepted_alternative {ts'' : List Token} {word lp rp other : Token} {c b a : Node}
    (hw : word.kind = .ifWord) (hl : lp.kind = .lparen)
    (hc : Reads (.expression 2 c) ts (rp :: ts'))
    (condition : Accepted (.expression 2 c) ts (rp :: ts')) (hr : rp.kind = .rparen)
    (hb : Reads (.block b) ts' (other :: ts''))
    (consequence : Accepted (.block b) ts' (other :: ts'')) (ho : other.kind = .elseWord)
    (ha : Reads (.block a) ts'' rest) (alternative : Accepted (.block a) ts'' rest) :
    Accepted (.primary (.conditional word c b a)) (word :: lp :: ts) rest := by
  intro depth hd he
  have hlt : ts.length < depth := Nat.lt_of_succ_lt hd
  have hlt' : ts'.length < depth := Nat.lt_trans hc.length_le hlt
  have hlt'' : ts''.length < depth := Nat.lt_trans hb.length_le hlt'
  have hloose : IsLoose (nextKind (rp :: ts')) := isLoose_of_kind hr (by decide)
  obtain ⟨cur, h, hcur⟩ := condition.lowest hlt hloose
  obtain ⟨brace, tail, rfl⟩ := exists_cons_of_reads_block hb
  obtain ⟨hbrace, cur', h', hcur'⟩ := consequence depth brace tail hlt' rfl
  obtain ⟨brace', tail', rfl⟩ := exists_cons_of_reads_block ha
  obtain ⟨hbrace', cur'', h'', hcur''⟩ := alternative depth brace' tail' hlt'' rfl
  refine ⟨word, lp :: ts, conditional (expression depth) word, rfl, by simp only [operand?, hw],
    cur'', ?_, hcur''⟩
  refine yields_conditional.mpr ⟨lp, ts, rfl, hl, c, cur, h, rp, _, hcur, hr, brace, tail, rfl,
    hbrace, b, cur', h', ?_⟩
  rw [hcur', nextKind_cons, if_pos ho]
  exact ⟨brace', tail', rfl, hbrace', a, cur'', h'', rfl, rfl⟩

theorem accepted_function {word lp rp : Token} {names : List Node} {b : Node}
    (hw : word.kind = .fnWord) (hl : lp.kind = .lparen)
    (hp : Reads (.parameters names) ts (rp :: ts'))
    (parameters : Accepted (.parameters names) ts (rp :: ts')) (hr : rp.kind = .rparen)
    (hb : Reads (.block b) ts' rest) (body : Accepted (.block b) ts' rest) :
    Accepted (.primary (.function word names b)) (word :: lp :: ts) rest := by
  intro depth hd he
  have hlt : ts.length < depth := Nat.lt_of_succ_lt hd
  have hlt' : ts'.length < depth := Nat.lt_trans hp.length_le hlt
  obtain ⟨brace, tail, rfl⟩ := exists_cons_of_reads_block hb
  obtain ⟨hbrace, cur, h, hcur⟩ := body depth brace tail hlt' rfl
  refine ⟨word, lp :: ts, function (expression depth) word, rfl, by simp only [operand?, hw],
    cur, ?_, hcur⟩
  exact yields_function.mpr ⟨lp, ts, rfl, hl, .inr ⟨names, _, parameters lp hr, brace, tail, rfl,
    hbrace, b, cur, h, rfl, rfl⟩⟩

theorem accepted_array {lb rb : Token} (hl : lb.kind = .lbracket)
    (elements : Accepted (.items ns) ts (rb :: rest)) (hr : rb.kind = .rbracket) :
    Accepted (.primary (.array lb ns)) (lb :: ts) rest := by
  intro depth hd he
  refine ⟨lb, ts, array (expression depth) lb, rfl, by simp only [operand?, hl], rb :: rest, ?_,
    rfl⟩
  exact yields_array.mpr (.inr ⟨ns, _, elements depth _ lb hd (.inr rfl) hr, rfl, rfl⟩)

theorem accepted_hash {lb rb : Token} (hl : lb.kind = .lbrace)
    (entries : Accepted (.pairs ps) ts (rb :: rest)) (hr : rb.kind = .rbrace) :
    Accepted (.primary (.hash lb ps)) (lb :: ts) rest := by
  intro depth hd he
  refine ⟨lb, ts, hash (expression depth) lb, rfl, by simp only [operand?, hl], rb :: rest, ?_,
    rfl⟩
  exact yields_hash.mpr (.inr ⟨ps, _, entries depth [] (lb :: ts) hd hr rfl, rfl, rfl⟩)

/-! ### Operators -/

/-- What begins with a whole operand goes on with the operators behind it. -/
theorem accepted_simple {least : Nat} (inner : Accepted (.primary n) ts rest) :
    Accepted (.expression least n) ts rest := by
  intro depth level hd hl hu fits
  obtain ⟨t, tail, operand, rfl, ho, cur, h, hcur⟩ := inner depth hd fits.2
  refine ⟨cur, hcur, fun m ts' hm => ?_⟩
  exact yields_expression.mpr ⟨t, tail, rfl, operand, ho, n, cur, h, hm⟩

theorem accepted_prefixed {least : Nat} (tight : least ≤ unaryRank)
    (operator : Grammar.IsPrefix t.kind) (right : Accepted (.expression unaryRank n) ts rest) :
    Accepted (.expression least (.prefixed t t.literal n)) (t :: ts) rest := by
  intro depth level hd hl hu fits
  have hb : binding rest ≤ Level.prefixed.rank := by
    have : min (binding rest) operandRank ≤ least := fits.1
    have : unaryRank = Level.prefixed.rank := rfl
    have : unaryRank < operandRank := by decide
    omega
  have hleast : leastRank .prefixed ≤ unaryRank := by decide
  obtain ⟨cur, h, hcur⟩ := right.yields hd hleast (by decide) hb fits.2
  have ho : operand? (expression depth) t = some (prefixed (expression depth) t) := by
    rcases List.mem_cons.mp operator with hk | hk
    · simp only [operand?, hk]
    · simp only [operand?, List.mem_singleton.mp hk]
  refine ⟨cur, hcur, fun m ts' hm => ?_⟩
  exact yields_expression.mpr ⟨t, ts, rfl, _, ho, _, cur,
    yields_prefixed.mpr ⟨n, cur, h, rfl, rfl⟩, hm⟩

/-- The operator behind an expression extends it, at every level at which the whole may be
read. -/
theorem accepted_extended {least least' : Nat} {left : Node}
    (hleft : Accepted (.expression least' left) ts (t :: ts')) (fits : Fits least' (t :: ts'))
    (tight : ∀ level : Level, level.rank ≤ unaryRank → leastRank level ≤ least →
      leastRank level ≤ least' ∧ level.rank < (Level.ofKind t.kind).rank)
    (hx : ∀ depth, ts.length ≤ depth → Fits least rest →
      ∃ cur, (extend (expression depth) left t).Yields (t :: ts') n cur ∧ cur.tail = rest) :
    Accepted (.expression least n) ts rest := by
  intro depth level hd hl hu hfits
  obtain ⟨hl', hlt⟩ := tight level hu hl
  obtain ⟨cur, hcur, go⟩ := hleft depth level hd hl' hu fits
  obtain ⟨cur', h, hcur'⟩ := hx depth hd hfits
  refine ⟨cur', hcur', fun m ts'' hm => go m ts'' (yields_iterate.mpr (.inr ⟨n, cur', ?_, ?_, hm⟩))⟩
  · exact yields_climb_inl.mpr ⟨t, ts', hcur, hlt, h⟩
  · have hle := h.length_le
    have hlen := length_of_tail_eq_cons hcur
    rw [List.length_cons] at hle
    omega

theorem accepted_infixed {least : Nat} {l r : Node} (tight : least ≤ (Level.ofKind t.kind).rank)
    (hleft : Reads (.expression (Level.ofKind t.kind).rank l) ts (t :: ts'))
    (left : Accepted (.expression (Level.ofKind t.kind).rank l) ts (t :: ts'))
    (operator : Grammar.IsInfix t.kind)
    (right : Accepted (.expression ((Level.ofKind t.kind).rank + 1) r) ts' rest) :
    Accepted (.expression least (.infixed t l t.literal r)) ts rest := by
  obtain ⟨-, hlt⟩ := rank_of_isInfix operator
  have hcall : unaryRank < operandRank := by decide
  have not_else : t.kind ≠ .elseWord ∧ t.kind ≠ .lparen ∧ t.kind ≠ .lbracket := by
    refine ⟨?_, ?_, ?_⟩ <;> intro hk <;> exact absurd (hk ▸ operator) (by decide)
  refine accepted_extended left ⟨Nat.min_le_left _ _, not_else.1⟩ ?_ ?_
  · intro level hu hl
    unfold leastRank at hl ⊢
    omega
  · rintro depth hd ⟨hb, he⟩
    have hlt' : ts'.length < depth := Nat.lt_of_lt_of_le hleft.length_le hd
    have hleast : leastRank (.ofKind t.kind) ≤ (Level.ofKind t.kind).rank + 1 :=
      Nat.min_le_left _ _
    obtain ⟨cur, h, hcur⟩ := right.yields hlt' hleast (Nat.le_of_lt hlt) (by omega) he
    exact ⟨cur, (yields_extend_operator not_else.2.1 not_else.2.2).mpr ⟨r, cur, h, rfl, rfl⟩, hcur⟩

/-- Calls and subscripts extend an operand at every level. -/
theorem leastRank_le_and_lt {level : Level} (hu : level.rank ≤ unaryRank)
    (ht : operandRank ≤ (Level.ofKind t.kind).rank) :
    leastRank level ≤ operandRank ∧ level.rank < (Level.ofKind t.kind).rank := by
  have : unaryRank < operandRank := by decide
  unfold leastRank
  omega

theorem accepted_call {lp rp : Token} {least : Nat} {f : Node}
    (hf : Reads (.expression operandRank f) ts (lp :: ts'))
    (callee : Accepted (.expression operandRank f) ts (lp :: ts')) (hl : lp.kind = .lparen)
    (arguments : Accepted (.items ns) ts' (rp :: rest)) (hr : rp.kind = .rparen) :
    Accepted (.expression least (.call lp f ns)) ts rest := by
  refine accepted_extended callee ⟨Nat.min_le_right _ _, by rw [nextKind_cons, hl]; decide⟩ ?_ ?_
  · exact fun level hu _ => leastRank_le_and_lt hu (by rw [hl]; decide)
  · intro depth hd _
    have hlt : ts'.length < depth := Nat.lt_of_lt_of_le hf.length_le hd
    have h := arguments depth _ lp hlt (.inl rfl) hr
    exact ⟨rp :: rest, (yields_extend_call hl).mpr (.inr ⟨ns, _, h, rfl, rfl⟩), rfl⟩

theorem accepted_index {lb rb : Token} {least : Nat} {l i : Node}
    (hleft : Reads (.expression operandRank l) ts (lb :: ts'))
    (left : Accepted (.expression operandRank l) ts (lb :: ts')) (hl : lb.kind = .lbracket)
    (subscript : Accepted (.expression 2 i) ts' (rb :: rest)) (hr : rb.kind = .rbracket) :
    Accepted (.expression least (.index lb l i)) ts rest := by
  refine accepted_extended left ⟨Nat.min_le_right _ _, by rw [nextKind_cons, hl]; decide⟩ ?_ ?_
  · exact fun level hu _ => leastRank_le_and_lt hu (by rw [hl]; decide)
  · intro depth hd _
    have hlt : ts'.length < depth := Nat.lt_of_lt_of_le hleft.length_le hd
    have hloose : IsLoose (nextKind (rb :: rest)) := isLoose_of_kind hr (by decide)
    obtain ⟨cur, h, hcur⟩ := subscript.lowest hlt hloose
    exact ⟨rb :: rest, (yields_extend_index hl).mpr ⟨i, cur, h, rb, rest, hcur, hr, rfl, rfl⟩, rfl⟩

/-! ### All phrases -/

/-- The parser reads every phrase. -/
theorem accepted_of_reads {p : Phrase} (h : Reads p ts rest) :
    Accepted p ts rest := by
  induction h with
  | none => exact accepted_none
  | ended hn hk _ ih ih' => exact accepted_ended hn ih hk ih'
  | unended hn apart hns ih ih' => exact accepted_unended hn ih apart hns ih'
  | letSentence hw hn hs _ ih => exact accepted_letSentence hw hn hs ih
  | returnSentence hw _ ih => exact accepted_returnSentence hw ih
  | expressionSentence hv ih => exact accepted_expressionSentence hv ih
  | infixed tight hl operator _ ih ih' => exact accepted_infixed tight hl ih operator ih'
  | prefixed tight operator _ ih => exact accepted_prefixed tight operator ih
  | call hf hl _ hr ih ih' => exact accepted_call hf ih hl ih' hr
  | index hl hk _ hr ih ih' => exact accepted_index hl ih hk ih' hr
  | simple _ ih => exact accepted_simple ih
  | identifier hk | string hk | true hk | false hk =>
    exact accepted_word fun E => by simp only [operand?, hk]
  | integer hk range => exact accepted_integer hk range
  | grouped hl _ hr ih => exact accepted_grouped hl ih hr
  | conditional hw hl hc hr hb ih ih' => exact accepted_conditional hw hl hc ih hr hb ih'
  | alternative hw hl hc hr hb ho ha ih ih' ih'' =>
    exact accepted_alternative hw hl hc ih hr hb ih' ho ha ih''
  | function hw hl hp hr hb ih ih' => exact accepted_function hw hl hp ih hr hb ih'
  | array hl _ hr ih => exact accepted_array hl ih hr
  | hash hl _ hr ih => exact accepted_hash hl ih hr
  | noItem => exact accepted_noItem
  | someItems hn hns ih ih' => exact accepted_someItems hn ih hns ih'
  | lastItem => exact accepted_lastItem
  | nextItem hc hn hns ih ih' => exact accepted_nextItem hc hn ih hns ih'
  | closed hl _ hr ih => exact accepted_closed hl ih hr
  | unclosed hl _ ih => exact accepted_unclosed hl ih
  | noParameter => exact accepted_noParameter
  | someParameters hn _ ih => exact accepted_someParameters hn ih
  | lastParameter => exact accepted_lastParameter
  | nextParameter hc hn _ ih => exact accepted_nextParameter hc hn ih
  | noPair => exact accepted_noPair
  | lastPair hp ih => exact accepted_lastPair hp ih
  | nextPair hp hc _ ih ih' => exact accepted_nextPair hp ih hc ih'
  | pair hk hc _ ih ih' => exact accepted_pair hk ih hc ih'

/-- A row of statements is read as a program, at every depth greater than its length. -/
theorem yields_program_of_reads {depth : Nat} (h : Reads (.statements ns) ts [])
    (hd : ts.length < depth) : (program (expression depth)).Yields ts (.program ns) [] := by
  refine yields_program.mpr ⟨ns, [], accepted_of_reads h depth _ [] hd ⟨?_, ?_⟩, rfl, rfl⟩
  · rintro _ ⟨⟩
  · rintro _ ⟨⟩

end Monkey.Parse
