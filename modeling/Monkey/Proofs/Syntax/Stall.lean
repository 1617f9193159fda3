import Monkey.Proofs.Syntax.Enough
import Monkey.Proofs.Syntax.Mend
import Monkey.Proofs.Syntax.Regroup
import Monkey.Proofs.Syntax.Sound

/-!
# Where the parser stalls

When the parser makes its first complaint, all that it has read before is the beginning of a word
of the grammar: in whatever constructs it is at that moment, each of them can still be completed.
The token that the complaint is about is the first one that is not taken up.

## Main definitions

* `Parser.Breaks` — the first complaint of a parser.
* `Parse.symbolOf` — the symbol of the expressions of a level.
* `Parse.StallsAll` — expressions stall inside of words only.

## Main results

* `Parser.Breaks.bind`, `Parser.Breaks.iterate_induction` — in which part a complaint is made.
* `Parse.stalled_expression` — expressions, at every depth.
* `Parse.stalled_program` — the tokens in front of the one that the first complaint about a program
  is about are the beginning of a program.
-/

namespace Monkey

namespace Parser

variable {α β σ : Type} {ts : List Token} {c : Complaint}

/-- The first complaint that the parser makes about `ts`. -/
def Breaks (p : Parser α) (ts : List Token) (c : Complaint) : Prop :=
  ∃ r cs, p ts = some r ∧ r.complaints = c :: cs

/-! ### In which part a complaint is made -/

theorem not_breaks_of_look {p : Parser α} {look : List Token → α}
    (hp : ∀ ts, p ts = some ⟨look ts, 0, []⟩) : ¬ p.Breaks ts c := by
  rintro ⟨r, cs, hr, hc⟩
  rw [hp, Option.some.injEq] at hr
  rw [← hr] at hc
  cases hc

theorem not_breaks_pure {a : α} : ¬ (pure a : Parser α).Breaks ts c :=
  not_breaks_of_look fun _ => rfl

theorem not_breaks_advance : ¬ advance.Breaks ts c := by
  rintro ⟨r, cs, ⟨⟩, hc⟩
  cases hc

/-- The first complaint of two parsers in a row is one of the first part, or the first part has
none. -/
theorem Breaks.bind {p : Parser α} {k : α → Parser β} (h : (p >>= k).Breaks ts c) :
    p.Breaks ts c ∨ ∃ a ts', p.Yields ts a ts' ∧ (k a).Breaks ts' c := by
  obtain ⟨r, cs, hr, hc⟩ := h
  rw [bind_apply] at hr
  split at hr
  · cases hr
  next r₁ h₁ =>
  obtain ⟨r₂, h₂, rfl⟩ := Option.map_eq_some_iff.mp hr
  cases hc₁ : r₁.complaints with
  | nil =>
    simp only [Reading.followedBy, hc₁, List.nil_append] at hc
    exact .inr ⟨r₁.value, _, ⟨r₁.count, by rw [h₁, ← hc₁], rfl⟩, r₂, cs, h₂, hc⟩
  | cons c₁ cs₁ =>
    simp only [Reading.followedBy, hc₁, List.cons_append, List.cons.injEq] at hc
    obtain ⟨rfl, -⟩ := hc
    exact .inl ⟨r₁, cs₁, h₁, hc₁⟩

theorem Breaks.bind_pure {p : Parser α} {g : α → β} (h : (do let x ← p; return g x).Breaks ts c) :
    p.Breaks ts c :=
  h.bind.resolve_right fun ⟨_, _, _, h⟩ => not_breaks_pure h

theorem Breaks.advance {k : Unit → Parser α} (h : (Parser.advance >>= k).Breaks ts c) :
    (k ()).Breaks ts.tail c := by
  obtain ⟨_, ts', hts, h⟩ := h.bind.resolve_left not_breaks_advance
  rwa [yields_advance.mp hts] at h

/-- Behind a parser that only looks at the tokens in front. -/
theorem Breaks.look {p : Parser β} {look : List Token → β} {k : β → Parser α}
    (hp : ∀ ts, p ts = some ⟨look ts, 0, []⟩) (h : (p >>= k).Breaks ts c) :
    (k (look ts)).Breaks ts c := by
  obtain ⟨_, ts', hlook, h⟩ := h.bind.resolve_left (not_breaks_of_look hp)
  obtain ⟨rfl, rfl⟩ := (yields_look hp).mp hlook
  exact h

theorem Breaks.current {k : Option Token → Parser α} (h : (Parser.current >>= k).Breaks ts c) :
    (k ts.head?).Breaks ts c :=
  h.look fun _ => rfl

theorem Breaks.upcoming {k : Option Token → Parser α} (h : (Parser.upcoming >>= k).Breaks ts c) :
    (k ts.tail.head?).Breaks ts c :=
  h.look fun _ => rfl

theorem Breaks.upcomingKind {k : Token.Kind → Parser α}
    (h : (Parser.upcomingKind >>= k).Breaks ts c) : (k (nextKind ts.tail)).Breaks ts c :=
  h.look fun _ => rfl

/-- A complaint is about the token that does not come up, or it is made behind the one that
does. -/
theorem Breaks.demand {wanted : Token.Kind} (hw : wanted ≠ .eof) {other : α}
    {p : Token → Parser α} (h : (Parser.demand wanted other p).Breaks ts c) :
    ts.tail.head? = c.token? ∨ ∃ t rest, ts.tail = t :: rest ∧ t.kind = wanted ∧
      (p t).Breaks (t :: rest) c := by
  by_cases hk : nextKind ts.tail = wanted
  · obtain ⟨t, rest, hts, ht⟩ := exists_cons_of_nextKind hk hw
    rcases h.bind with ⟨r, cs, hr, hc⟩ | ⟨_, ts', he, h⟩
    · rw [expect_of_eq hk, Option.some.injEq] at hr
      rw [← hr] at hc
      cases hc
    · obtain ⟨-, rfl, rfl⟩ := yields_expect.mp he
      rw [hts] at h
      exact .inr ⟨t, rest, hts, ht, h⟩
  · obtain ⟨r, cs, hr, hc⟩ := h
    rw [Parser.demand, bind_apply, expect_of_ne hk] at hr
    obtain ⟨r₂, -, rfl⟩ := Option.map_eq_some_iff.mp hr
    obtain ⟨rfl, -⟩ := List.cons.inj hc
    exact .inl rfl

/-- Induction along a loop down to the round in which the first complaint is made. -/
theorem Breaks.iterate_induction {step : σ → Parser (σ ⊕ α)} {motive : σ → List Token → Prop}
    (broken : ∀ s ts, (step s).Breaks ts c → motive s ts)
    (more : ∀ s ts s₁ ts₁, (step s).Yields ts (.inl s₁) ts₁ → (iterate step s₁).Breaks ts₁ c →
      motive s₁ ts₁ → motive s ts) (s : σ) (ts : List Token)
    (h : (iterate step s).Breaks ts c) : motive s ts := by
  induction hn : ts.length using Nat.strongRecOn generalizing s ts with
  | ind n ih =>
    obtain ⟨r, cs, hr, hc⟩ := h
    rw [iterate_apply] at hr
    split at hr
    · cases hr
    · next a count complaints h₁ =>
      cases hr
      exact broken s ts ⟨_, cs, h₁, hc⟩
    · next s₁ count complaints h₁ =>
      split at hr
      · next progress =>
        obtain ⟨q, hq, rfl⟩ := Option.map_eq_some_iff.mp hr
        cases complaints with
        | cons c₁ cs₁ =>
          obtain ⟨rfl, -⟩ := List.cons.inj hc
          exact broken s ts ⟨_, cs₁, h₁, rfl⟩
        | nil =>
          have hlength := List.length_pos_iff.mpr progress.1
          have hrest : (iterate step s₁).Breaks (ts.drop count) c := ⟨q, cs, hq, hc⟩
          refine more s ts s₁ _ ⟨count, h₁, rfl⟩ hrest (ih _ ?_ s₁ _ hrest rfl)
          rw [List.length_drop]
          omega
      · cases hr

end Parser

namespace Parse

open Monkey.Parser Phrase
open Grammar hiding name
open Grammar.Symbol

variable {E : Expressions} {t : Token} {ts rest cur : List Token} {c : Complaint}

/-- The symbol of the expressions of a level. -/
def symbolOf (level : Level) : Grammar.Symbol :=
  if level.rank < unaryRank then .expression else .unary

/-- What is read of an expression in front of the first complaint about it can be completed. -/
def StallsAll (E : Expressions) : Prop :=
  ∀ level ts c, (E level).Breaks ts c → Stalled (Spans (symbolOf level)) ts c

theorem StallsAll.lowest (hE : StallsAll E) (h : (E .lowest).Breaks ts c) :
    Stalled (Spans .expression) ts c :=
  hE .lowest ts c h

theorem covers_of_yields (hS : Sound E) {n : Node} (h : (E .lowest).Yields ts n cur) :
    Covers (Spans .expression) ts cur.tail :=
  (hS.lowest h).derived.1.covers

/-! ### Statements -/

theorem not_breaks_optionalSemicolon : ¬ optionalSemicolon.Breaks ts c := by
  intro h
  have h := h.upcomingKind
  split at h
  · exact not_breaks_advance h
  · exact not_breaks_pure h

theorem breaks_ending {g : Node → Node}
    (h : (do let value ← E .lowest; optionalSemicolon; return g value : Parser Node).Breaks ts c) :
    (E .lowest).Breaks ts c := by
  refine h.bind.resolve_right ?_
  rintro ⟨_, _, _, h⟩
  exact not_breaks_optionalSemicolon h.bind_pure

theorem stalled_letStatement (hE : StallsAll E) (ht : t.kind = .letWord)
    (h : (letStatement E t).Breaks (t :: ts) c) : Stalled (Spans .sentence) (t :: ts) c := by
  rcases h.demand (by decide) with hc | ⟨name, ts, rfl, hname, h⟩
  · refine (Stalled.intro hc (w := [Grammar.name, sign '=', Grammar.name]) (by decide) ?_).behind
      [t] fun v => id
    exact .letSentence ht (by decide) (by decide) spans_expression_name
  rcases h.demand (by decide) with hc | ⟨equals, ts, rfl, hequals, h⟩
  · refine (Stalled.intro hc (w := [sign '=', Grammar.name]) (by decide) ?_).behind
      [t, name] fun v => id
    exact .letSentence ht hname (by decide) spans_expression_name
  · exact (hE.lowest (breaks_ending h.advance)).behind [t, name, equals] fun v =>
      .letSentence ht hname hequals

theorem stalled_statement (hE : StallsAll E) (h : (statement E t).Breaks (t :: ts) c) :
    Stalled (Spans .sentence) (t :: ts) c := by
  unfold statement at h
  split at h
  · next ht => exact stalled_letStatement hE ht h
  · next ht =>
    exact (hE.lowest (breaks_ending h.advance)).behind [t] fun v => .returnSentence ht
  · exact (hE.lowest (breaks_ending h)).whole fun v => .expressionSentence

/-- A list of statements breaks off in a statement. -/
theorem breaks_moreStatements {ends : Token.Kind → Bool} {ns : List Node}
    (h : (moreStatements E ends ns).Breaks ts c) :
    ∃ t rest, ts = t :: rest ∧ (statement E t).Breaks (t :: rest) c := by
  have h := h.current
  cases ts with
  | nil => exact absurd h not_breaks_pure
  | cons t rest =>
    dsimp only [List.head?_cons] at h
    split at h
    · exact absurd h not_breaks_pure
    · refine ⟨t, rest, rfl, h.bind.resolve_right ?_⟩
      rintro ⟨_, _, _, h⟩
      exact not_breaks_pure h.advance

theorem stalled_moreStatements (hS : Sound E) (hE : StallsAll E) {ends : Token.Kind → Bool}
    {ns : List Node} (h : (iterate (moreStatements E ends) ns).Breaks ts c) :
    Stalled (Spans .statements) ts c := by
  refine Breaks.iterate_induction (motive := fun _ ts => Stalled (Spans .statements) ts c)
    (fun ns ts h => ?_) (fun ns ts ns₁ ts₁ hstep _ ih => ?_) ns ts h
  · obtain ⟨t, rest, rfl, hfirst⟩ := breaks_moreStatements h
    exact (stalled_statement hE hfirst).inside [] [] (List.forall_mem_nil _) fun v hv =>
      hv.unended (fun _ ht => nomatch ht) .none
  · obtain ⟨t, rest, rfl, -, n, cur, hn, rfl, rfl⟩ := yields_moreStatements_inl.mp hstep
    obtain ⟨mid, hs, hb, hcur⟩ := reads_of_statement hS hn
    have first : Covers (Spans .sentence) (t :: rest) mid := hs.derived.covers
    rw [hcur] at ih
    -- whether the statement has a semicolon is seen from what follows it
    unfold dropSemicolon at ih
    split at ih
    · next hk =>
      obtain ⟨semicolon, rest', rfl, hk⟩ := exists_cons_of_nextKind hk (by decide)
      exact ih.separated first fun u v hu hv => hu.ended hk hv
    · exact ih.unended first (not_continues_of_binding hb)

theorem stalled_block (hS : Sound E) (hE : StallsAll E) (ht : t.kind = .lbrace)
    (h : (block E t).Breaks (t :: ts) c) : Stalled (Spans .block) (t :: ts) c :=
  (stalled_moreStatements hS hE h.advance.bind_pure).inside [t] [sign '}']
    (by decide) fun _ hv => .closed ht hv (by decide)

/-! ### Lists -/

theorem stalled_moreItems (hS : Sound E) (hE : StallsAll E) {close : Token.Kind}
    (hclose : close ≠ .eof) {ns : List Node}
    (h : (iterate (moreItems E close) ns).Breaks cur c) :
    Stalled (Spans .moreItems) cur.tail c := by
  refine Breaks.iterate_induction (motive := fun _ cur => Stalled (Spans .moreItems) cur.tail c)
    (fun ns cur h => ?_) (fun ns cur ns₁ cur₁ hstep _ ih => ?_) ns cur h
  · have h := h.upcomingKind
    split at h
    · next hk =>
      obtain ⟨comma, rest, hcur, hcomma⟩ := exists_cons_of_nextKind hk (by decide)
      have h := h.advance.advance.bind_pure
      rw [hcur] at h ⊢
      exact (hE.lowest h).inside [comma] [] (List.forall_mem_nil _) fun v hv =>
        .nextItem (u := v) hcomma hv .lastItem
    · rcases h.demand hclose with hc | ⟨_, _, _, _, h⟩
      · exact .intro hc (List.forall_mem_nil _) .lastItem
      · exact absurd h not_breaks_pure
  · obtain ⟨comma, rest, hcur, hcomma, n, hn, rfl⟩ := (yields_moreItems_inl hclose).mp hstep
    rw [hcur]
    exact (ih.behind_word (covers_of_yields hS hn) fun u v hu hv => hu.nextItem hcomma hv).behind
      [comma] fun v => id

theorem stalled_items (hS : Sound E) (hE : StallsAll E) {close : Token.Kind}
    (hclose : close ≠ .eof) (h : (items E close).Breaks cur c) :
    Stalled (Spans .items) cur.tail c := by
  have h := h.upcomingKind
  split at h
  · exact absurd h.advance not_breaks_pure
  · rcases h.advance.bind with h | ⟨n, cur', hn, h⟩
    · exact (hE.lowest h).inside [] [] (List.forall_mem_nil _) fun v hv =>
        hv.someItems .lastItem
    · exact (stalled_moreItems hS hE hclose h).behind_word (covers_of_yields hS hn)
        fun u v => Spans.someItems

theorem stalled_moreParameters {ns : List Node} (h : (iterate moreParameters ns).Breaks cur c) :
    Stalled (Spans .moreParameters) cur.tail c := by
  refine Breaks.iterate_induction
    (motive := fun _ cur => Stalled (Spans .moreParameters) cur.tail c)
    (fun ns cur h => ?_) (fun ns cur ns₁ cur₁ hstep _ ih => ?_) ns cur h
  · have h := h.upcomingKind
    split at h
    · next hk =>
      obtain ⟨comma, rest, hcur, hcomma⟩ := exists_cons_of_nextKind hk (by decide)
      rcases h.advance.demand (by decide) with hc | ⟨_, _, _, _, h⟩
      · rw [hcur] at hc ⊢
        refine (Stalled.intro hc (w := [Grammar.name]) (by decide) ?_).behind [comma]
          fun v => id
        exact .nextParameter hcomma (by decide) .lastParameter
      · exact absurd h not_breaks_pure
    · rcases h.demand (by decide) with hc | ⟨_, _, _, _, h⟩
      · exact .intro hc (List.forall_mem_nil _) .lastParameter
      · exact absurd h not_breaks_pure
  · obtain ⟨comma, name, rest, hcur, hcomma, hname, rfl, rfl⟩ := yields_moreParameters_inl.mp hstep
    rw [hcur]
    exact ih.behind [comma, name] fun v => .nextParameter hcomma hname

theorem stalled_parameters (h : parameters.Breaks cur c) :
    Stalled (Spans .parameters) cur.tail c := by
  have h := h.upcomingKind
  split at h
  · exact absurd h.advance not_breaks_pure
  · rcases h.demand (by decide) with hc | ⟨name, rest, hcur, hname, h⟩
    · exact .intro hc (List.forall_mem_nil _) .noParameter
    · rw [hcur]
      exact (stalled_moreParameters h).behind [name] fun v => .someParameters hname

/-- In front of the closing brace there is nothing to complain about. -/
theorem not_breaks_pairs {ps : List (Node × Node)} (hk : nextKind cur.tail = .rbrace) :
    ¬ (iterate (morePairs E) ps).Breaks cur c := by
  rintro ⟨r, cs, hr, hc⟩
  have hdone : (morePairs E ps).Yields cur (.inr (some ps.reverse)) cur.tail :=
    yields_morePairs_inr.mpr (by rw [if_pos hk]; exact ⟨rfl, rfl⟩)
  obtain ⟨count, hcount, -⟩ := hdone
  rw [iterate_of_inr hcount, Option.some.injEq] at hr
  rw [← hr] at hc
  cases hc

theorem stalled_morePairs (hS : Sound E) (hE : StallsAll E) {ps : List (Node × Node)}
    (h : (morePairs E ps).Breaks cur c) : Stalled (Spans .pairs) cur.tail c := by
  have h := h.upcomingKind
  split at h
  · exact absurd h.advance not_breaks_pure
  rcases h.advance.bind with h | ⟨key, cur₁, hkey, h⟩
  · refine (hE.lowest h).inside [] [sign ':', Grammar.name] (by decide)
      fun v hv => ?_
    exact .lastPair (hv.pair (by decide) spans_expression_name)
  have first := covers_of_yields hS hkey
  rcases h.demand (by decide) with hc | ⟨colon, rest, hcur, hcolon, h⟩
  · refine (first.stalled hc).inside [] [sign ':', Grammar.name] (by decide)
      fun v hv => ?_
    exact .lastPair (hv.pair (by decide) spans_expression_name)
  rw [hcur] at first
  rcases h.advance.bind with h | ⟨value, cur₂, hvalue, h⟩
  · exact (hE.lowest h).separated first fun u v hu hv => .lastPair (hu.pair hcolon hv)
  have pair : Covers (Spans .pair) cur.tail cur₂.tail :=
    first.separated (covers_of_yields hS hvalue) fun u v hu hv => hu.pair hcolon hv
  split at h
  · exact absurd h not_breaks_pure
  have h := h.upcomingKind
  split at h
  · exact absurd h not_breaks_pure
  · rcases h.demand (by decide) with hc | ⟨_, _, _, _, h⟩
    · exact (pair.stalled hc).whole fun v => .lastPair
    · exact absurd h not_breaks_pure

theorem stalled_pairs (hS : Sound E) (hE : StallsAll E) {ps : List (Node × Node)}
    (h : (iterate (morePairs E) ps).Breaks cur c) : Stalled (Spans .pairs) cur.tail c := by
  refine Breaks.iterate_induction (motive := fun _ cur => Stalled (Spans .pairs) cur.tail c)
    (fun ps cur h => stalled_morePairs hS hE h) (fun ps cur ps₁ cur₁ hstep h ih => ?_) ps cur h
  obtain ⟨-, key, cur', hkey, colon, rest, hcur, hcolon, value, cur'', hvalue, -, hstep⟩ :=
    yields_morePairs_inl.mp hstep
  have first := covers_of_yields hS hkey
  rw [hcur] at first
  have pair : Covers (Spans .pair) cur.tail cur''.tail :=
    first.separated (covers_of_yields hS hvalue) fun u v hu hv => hu.pair hcolon hv
  split at hstep
  · -- in front of the brace the loop ends without a complaint
    next hk =>
    obtain ⟨-, rfl⟩ := hstep
    exact absurd h (not_breaks_pairs hk)
  · obtain ⟨comma, rest', hcur'', hcomma, rfl, rfl⟩ := hstep
    rw [hcur''] at pair
    exact ih.separated pair fun u v hu hv => hu.nextPair hcomma hv

/-! ### Operands -/

/-- An expression, the token that has to follow it, and what is read from there on. -/
theorem stalled_enclosed (hS : Sound E) (hE : StallsAll E) {close : Token.Kind}
    (hclose : close ≠ .eof) {other : Node} {p : Node → Token → Parser Node}
    (h : (do let n ← E .lowest; demand close other (p n) : Parser Node).Breaks ts c) :
    Stalled (Spans .expression) ts c ∨ ∃ n d rest, Covers (Spans .expression) ts (d :: rest) ∧
      d.kind = close ∧ (p n d).Breaks (d :: rest) c := by
  rcases h.bind with h | ⟨n, cur, hn, hbehind⟩
  · exact .inl (hE.lowest h)
  have first := covers_of_yields hS hn
  rcases hbehind.demand hclose with hc | ⟨d, rest, hcur, hd, hfurther⟩
  · exact .inl (first.stalled hc)
  · rw [hcur] at first
    exact .inr ⟨n, d, rest, first, hd, hfurther⟩

theorem breaks_integer (h : (integer t).Breaks (t :: ts) c) : c.token? = some t := by
  unfold integer at h
  split at h
  · exact absurd h not_breaks_pure
  · obtain ⟨r, cs, hr, hc⟩ := h
    cases hr
    obtain ⟨rfl, -⟩ := List.cons.inj hc
    rfl

theorem stalled_grouped (hS : Sound E) (hE : StallsAll E) (ht : t.kind = .lparen)
    (h : (grouped E).Breaks (t :: ts) c) : Stalled (Spans .primary) (t :: ts) c := by
  rcases stalled_enclosed hS hE (by decide) h.advance with h | ⟨_, _, _, _, _, h⟩
  · exact h.inside [t] [sign ')'] (by decide) fun v hv =>
      .grouped ht hv (by decide)
  · exact absurd h not_breaks_pure

theorem stalled_prefixed (hE : StallsAll E) (ht : Grammar.IsPrefix t.kind)
    (h : (prefixed E t).Breaks (t :: ts) c) : Stalled (Spans .unary) (t :: ts) c :=
  (hE .prefixed _ _ h.advance.bind_pure).behind [t] fun _ hv => .prefixed ht hv

/-- A block that has to follow. -/
theorem stalled_demandBlock (hS : Sound E) (hE : StallsAll E) {k : Node → Parser Node}
    (h : (demand .lbrace .missing fun brace => block E brace >>= k : Parser Node).Breaks
      (t :: ts) c) :
    Stalled (Spans .block) ts c ∨
      ∃ n cur, Covers (Spans .block) ts cur.tail ∧ (k n).Breaks cur c := by
  rcases h.demand (by decide) with hc | ⟨brace, rest, hts, hbrace, hblock⟩
  · exact .inl (.intro hc (w := [sign '{', sign '}']) (by decide) spans_block_signs)
  rw [List.tail_cons] at hts
  subst hts
  rcases hblock.bind with h | ⟨n, cur, hn, h⟩
  · exact .inl (stalled_block hS hE hbrace h)
  · exact .inr ⟨n, cur, (reads_of_block hS hbrace hn).derived.covers, h⟩

theorem stalled_conditional (hS : Sound E) (hE : StallsAll E) (ht : t.kind = .ifWord)
    (h : (conditional E t).Breaks (t :: ts) c) : Stalled (Spans .primary) (t :: ts) c := by
  rcases h.demand (by decide) with hc | ⟨lp, ts, rfl, hl, h⟩
  · exact (Stalled.intro hc (w := [sign '(', Grammar.name, sign ')', sign '{', sign '}'])
      (by decide) (.conditional ht (by decide) spans_expression_name (by decide)
        spans_block_signs)).behind [t] fun v => id
  rcases stalled_enclosed hS hE (by decide) h.advance with h | ⟨_, rp, ts', condition, hr, h⟩
  · exact h.inside [t, lp] [sign ')', sign '{', sign '}'] (by decide)
      fun v hv => .conditional ht hl hv (by decide) spans_block_signs
  -- what is behind the condition can be completed to one block or two
  suffices branches : Stalled (fun v => ∀ u, Spans .expression u →
      Spans .primary (t :: lp :: (u ++ rp :: v))) ts' c from
    (branches.separated condition fun u v hu hv => hv u hu).behind [t, lp] fun v => id
  rcases stalled_demandBlock hS hE h with h | ⟨_, cur, consequence, h⟩
  · exact h.whole fun v hv u hu => hu.conditional ht hl hr hv
  have h := h.upcomingKind
  split at h
  · next ho =>
    obtain ⟨other, rest, hcur, ho⟩ := exists_cons_of_nextKind ho (by decide)
    have h := h.advance
    rw [hcur] at h consequence
    rcases stalled_demandBlock hS hE h with h | ⟨_, _, _, h⟩
    · exact h.separated consequence fun b a hb ha u hu => hu.alternative ht hl hr hb ho ha
    · exact absurd h not_breaks_pure
  · exact absurd h not_breaks_pure

theorem stalled_function (hS : Sound E) (hE : StallsAll E) (ht : t.kind = .fnWord)
    (h : (function E t).Breaks (t :: ts) c) : Stalled (Spans .primary) (t :: ts) c := by
  rcases h.demand (by decide) with hc | ⟨lp, ts, rfl, hl, h⟩
  · exact (Stalled.intro hc (w := [sign '(', sign ')', sign '{', sign '}']) (by decide)
      (.function ht (by decide) .noParameter (by decide) spans_block_signs)).behind [t]
      fun v => id
  rcases h.bind with h | ⟨r, _, hnames, hbehind⟩
  · exact (stalled_parameters h).inside [t, lp] [sign ')', sign '{', sign '}']
      (by decide) fun v hv => .function ht hl hv (by decide) spans_block_signs
  obtain ⟨ns, rp, rest, rfl, rfl, hr, names⟩ := reads_of_parameters hnames
  rcases stalled_demandBlock hS hE hbehind with h | ⟨_, _, _, h⟩
  · exact (h.separated names.derived.covers fun u v hu hv => hu.function ht hl hr hv).behind
      [t, lp] fun v => id
  · exact absurd h not_breaks_pure

/-- Behind the items there is nothing left to complain about. -/
theorem breaks_items {close : Token.Kind} {g : List Node → Node} (h : (do
      match ← items E close with
      | none => return .missing
      | some ns => return g ns : Parser Node).Breaks ts c) : (items E close).Breaks ts c := by
  refine h.bind.resolve_right ?_
  rintro ⟨_ | ns, _, _, h⟩ <;> exact not_breaks_pure h

theorem stalled_array (hS : Sound E) (hE : StallsAll E) (ht : t.kind = .lbracket)
    (h : (array E t).Breaks (t :: ts) c) : Stalled (Spans .primary) (t :: ts) c :=
  (stalled_items hS hE (by decide) (breaks_items h)).inside [t] [sign ']']
    (by decide) fun _ hv => .array ht hv (by decide)

theorem stalled_hash (hS : Sound E) (hE : StallsAll E) (ht : t.kind = .lbrace)
    (h : (hash E t).Breaks (t :: ts) c) : Stalled (Spans .primary) (t :: ts) c := by
  have hpairs : (iterate (morePairs E) []).Breaks (t :: ts) c := by
    refine h.bind.resolve_right ?_
    rintro ⟨_ | ps, _, _, h⟩ <;> exact not_breaks_pure h
  exact (stalled_pairs hS hE hpairs).inside [t] [sign '}'] (by decide)
    fun _ hv => .hash ht hv (by decide)

theorem stalled_operand (hS : Sound E) (hE : StallsAll E) {operand : Parser Node}
    (ho : operand? E t = some operand) (h : operand.Breaks (t :: ts) c) :
    Stalled (Spans .unary) (t :: ts) c := by
  have primary : Stalled (Spans .primary) (t :: ts) c → Stalled (Spans .unary) (t :: ts) c :=
    fun h => h.whole fun v hv => .plain (.simple hv)
  unfold operand? at ho
  split at ho <;> cases ho
  case h_1 | h_3 | h_4 | h_5 => exact absurd h not_breaks_pure
  case h_2 =>
    exact primary (.intro (breaks_integer h).symm (w := [Grammar.name]) (by decide) spans_name)
  case h_6 hk | h_7 hk => exact stalled_prefixed hE (hk ▸ by decide) h
  case h_8 hk => exact primary (stalled_grouped hS hE hk h)
  case h_9 hk => exact primary (stalled_conditional hS hE hk h)
  case h_10 hk => exact primary (stalled_function hS hE hk h)
  case h_11 hk => exact primary (stalled_array hS hE hk h)
  case h_12 hk => exact primary (stalled_hash hS hE hk h)

/-! ### Operators -/

theorem spans_symbolOf {level : Level} (h : Spans .unary ts) : Spans (symbolOf level) ts := by
  unfold symbolOf
  split
  · exact .single h
  · exact h

theorem symbolOf_eq_expression {level : Level} (h : level.rank < unaryRank) :
    symbolOf level = .expression :=
  if_pos h

/-- What is fit for a call or a subscript is an operand. -/
theorem covers_operand_of_fit {left : Node} {level : Level}
    (hleft : Reads (.expression (fitRank level (t :: rest)) left) ts (t :: rest))
    (hk : operandRank ≤ (Level.ofKind t.kind).rank) : Covers (Spans .operand) ts (t :: rest) :=
  ((reads_of_fit hleft hk (Nat.le_refl _)).derived.2.2 (Nat.le_refl _)).covers

theorem stalled_extend (hS : Sound E) (hE : StallsAll E) {left : Node} {level : Level}
    (hlevel : level.rank < (Level.ofKind t.kind).rank)
    (hleft : Reads (.expression (fitRank level (t :: rest)) left) ts (t :: rest))
    (h : (extend E left t).Breaks (t :: rest) c) : Stalled (Spans (symbolOf level)) ts c := by
  by_cases hl : t.kind = .lparen
  · have callee := covers_operand_of_fit hleft (by rw [hl]; decide)
    simp only [extend, hl] at h
    have arguments : Stalled (Grammar.Lengthens t) rest c :=
      (stalled_items hS hE (by decide) (breaks_items h)).inside [] [sign ')'] (by decide)
        fun v hv u hu => hu.call hl hv (by decide)
    exact arguments.separated callee fun u v hu hv => spans_symbolOf (.plain (hv u hu))
  by_cases hi : t.kind = .lbracket
  · have operand := covers_operand_of_fit hleft (by rw [hi]; decide)
    simp only [extend, hi] at h
    rcases stalled_enclosed hS hE (by decide) h.advance with h | ⟨_, _, _, _, _, h⟩
    · have subscript : Stalled (Grammar.Lengthens t) rest c :=
        h.inside [] [sign ']'] (by decide) fun v hv u hu => hu.index hi hv (by decide)
      exact subscript.separated operand fun u v hu hv => spans_symbolOf (.plain (hv u hu))
    · exact absurd h not_breaks_pure
  · have operator : Grammar.IsInfix t.kind :=
      isInfix_of_rank (Nat.lt_of_le_of_lt (by cases level <;> decide) hlevel) hl hi
    obtain ⟨-, hlt⟩ := rank_of_isInfix operator
    have first : Covers (Spans .expression) ts (t :: rest) := hleft.derived.1.covers
    unfold extend at h
    split at h
    · exact absurd ‹_› hl
    · exact absurd ‹_› hi
    · have right := hE _ _ _ h.advance.bind_pure
      rw [symbolOf_eq_expression hlt] at right
      rw [symbolOf_eq_expression (Nat.lt_trans hlevel hlt)]
      exact right.separated first fun u v hu hv => hu.operation operator hv

theorem stalled_climb (hS : Sound E) (hE : StallsAll E) {left : Node} {level : Level}
    (hleft : Reads (.expression (fitRank level cur.tail) left) ts cur.tail)
    (h : (iterate (climb E level) left).Breaks cur c) : Stalled (Spans (symbolOf level)) ts c := by
  refine Breaks.iterate_induction (motive := fun left cur =>
    Reads (.expression (fitRank level cur.tail) left) ts cur.tail →
      Stalled (Spans (symbolOf level)) ts c)
    (fun left cur h hleft => ?_) (fun left cur left₁ cur₁ hstep _ ih hleft => ?_) left cur h hleft
  · have h := h.upcoming
    cases hcur : cur.tail with
    | nil =>
      rw [hcur] at h
      exact absurd h not_breaks_pure
    | cons t rest =>
      rw [hcur] at h hleft
      dsimp only [List.head?_cons] at h
      split at h
      · next hlevel =>
        have hextend := h.advance.bind_pure
        rw [hcur] at hextend
        exact stalled_extend hS hE hlevel hleft hextend
      · exact absurd h not_breaks_pure
  · obtain ⟨t, rest, hcur, hlevel, hx⟩ := yields_climb_inl.mp hstep
    exact ih (reads_of_extend hS hlevel (hcur ▸ hleft) hx)

/-- **What is read of an expression can be completed.** -/
theorem stalled_expression (depth : Nat) : StallsAll (expression depth) := by
  induction depth with
  | zero =>
    rintro level ts c ⟨r, cs, ⟨⟩, -⟩
  | succ depth ih =>
    intro level ts c h
    have h := h.current
    split at h
    · obtain ⟨r, cs, hr, hc⟩ := h
      cases hr
      obtain ⟨rfl, -⟩ := List.cons.inj hc
      exact .intro rfl (w := [Grammar.name]) (by decide)
        (spans_symbolOf (.plain (.simple spans_name)))
    · next operand ho =>
      cases ts with
      | nil => cases ho
      | cons t rest =>
        rcases h.bind with h | ⟨left, cur, hleft, hclimb⟩
        · exact (stalled_operand (sound_expression depth) ih ho h).whole fun v => spans_symbolOf
        · refine stalled_climb (sound_expression depth) ih
            (reads_of_operand (sound_expression depth) ho hleft ?_) hclimb
          unfold fitRank leastRank
          omega

/-- **What is read of a program can be completed**: the tokens in front of the one that the first
complaint is about are the beginning of a program. -/
theorem stalled_program {depth : Nat} (h : (program (expression depth)).Breaks ts c) :
    Stalled (Spans .statements) ts c :=
  stalled_moreStatements (sound_expression depth) (stalled_expression depth) h.bind_pure

end Parse

end Monkey
