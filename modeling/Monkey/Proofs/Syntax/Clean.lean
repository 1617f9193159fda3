import Monkey.Syntax.Parse

/-!
# Readings without complaints

What a parser reads when it has nothing to complain about.  For such readings
every combinator and every construct of the parser is an equivalence: the left side
is a run of the parser, the right side says which tokens it met.

After an expression the current token is the last one of the expression, or there is
none because a block was closed by the end of the text.  Nothing that follows looks at
the current token any more, so all that matters is `ts.tail`.

## Main definitions

* `Parser.Yields` — a reading without complaints.
* `nextKind` — the kind of the first token of a list, the end if there is none.

## Main results

* `yields_bind`, `yields_demand`, `yields_iterate` — the combinators.
* `Yields.iterate_induction` — induction along a loop.
-/

namespace Monkey

/-- The kind of the token that comes first; that of the end if none does. -/
def nextKind (ts : List Token) : Token.Kind := Complaint.kindOf ts.head?

@[simp] theorem nextKind_nil : nextKind [] = .eof := rfl

@[simp] theorem nextKind_cons (t : Token) (ts : List Token) : nextKind (t :: ts) = t.kind := rfl

/-- Only a token has a kind other than that of the end. -/
theorem exists_cons_of_nextKind {ts : List Token} {kind : Token.Kind} (h : nextKind ts = kind)
    (hk : kind ≠ .eof) : ∃ t rest, ts = t :: rest ∧ t.kind = kind := by
  cases ts with
  | nil => exact absurd h.symm hk
  | cons t rest => exact ⟨t, rest, rfl, h⟩

/-- The length of what has some tokens behind its first one. -/
theorem length_of_tail_eq_cons {cur ts : List Token} {t : Token} (h : cur.tail = t :: ts) :
    cur.length = ts.length + 2 := by
  have htail : cur.tail.length = ts.length + 1 := by rw [h]; rfl
  rw [List.length_tail] at htail
  omega

namespace Parser

variable {α β σ : Type}

/-- On `ts` the parser gives `a` without a complaint, and leaves `ts'`. -/
def Yields (p : Parser α) (ts : List Token) (a : α) (ts' : List Token) : Prop :=
  ∃ count, p ts = some ⟨a, count, []⟩ ∧ ts.drop count = ts'

/-- A parser leaves no more tokens than it had. -/
theorem Yields.length_le {p : Parser α} {ts ts' : List Token} {a : α} (h : p.Yields ts a ts') :
    ts'.length ≤ ts.length := by
  obtain ⟨count, -, rfl⟩ := h
  rw [List.length_drop]
  exact Nat.sub_le _ _

/-! ### Combinators -/

/-- A parser that only looks at the tokens in front of it. -/
theorem yields_look {p : Parser α} {look : List Token → α}
    (hp : ∀ ts, p ts = some ⟨look ts, 0, []⟩) {ts ts' : List Token} {a : α} :
    p.Yields ts a ts' ↔ a = look ts ∧ ts' = ts := by
  constructor
  · rintro ⟨count, h, rfl⟩
    rw [hp, Option.some.injEq, Reading.mk.injEq] at h
    obtain ⟨rfl, rfl, -⟩ := h
    exact ⟨rfl, rfl⟩
  · rintro ⟨rfl, rfl⟩
    exact ⟨0, hp ts', rfl⟩

theorem yields_pure {a b : α} {ts ts' : List Token} :
    (pure a : Parser α).Yields ts b ts' ↔ b = a ∧ ts' = ts :=
  yields_look (fun _ => rfl)

theorem yields_current {ts ts' : List Token} {t : Option Token} :
    current.Yields ts t ts' ↔ t = ts.head? ∧ ts' = ts :=
  yields_look (fun _ => rfl)

theorem yields_upcoming {ts ts' : List Token} {t : Option Token} :
    upcoming.Yields ts t ts' ↔ t = ts.tail.head? ∧ ts' = ts :=
  yields_look (fun _ => rfl)

theorem yields_upcomingKind {ts ts' : List Token} {kind : Token.Kind} :
    upcomingKind.Yields ts kind ts' ↔ kind = nextKind ts.tail ∧ ts' = ts :=
  yields_look (fun _ => rfl)

/-- A sequence has no complaint when neither of its parts has one. -/
theorem yields_bind {p : Parser α} {f : α → Parser β} {ts ts'' : List Token} {b : β} :
    (p >>= f).Yields ts b ts'' ↔ ∃ a ts', p.Yields ts a ts' ∧ (f a).Yields ts' b ts'' := by
  constructor
  · rintro ⟨count, h, rfl⟩
    rw [bind_apply] at h
    split at h
    · contradiction
    · next r hr =>
      obtain ⟨q, hq, he⟩ := Option.map_eq_some_iff.mp h
      -- the complaints of both parts are in a row, so neither part has any
      simp only [Reading.followedBy, Reading.mk.injEq, List.append_eq_nil_iff] at he
      obtain ⟨rfl, rfl, hc, hc'⟩ := he
      refine ⟨r.value, ts.drop r.count, ⟨r.count, ?_, rfl⟩, q.count, ?_, ?_⟩
      · rw [hr, ← hc]
      · rw [hq, ← hc']
      · rw [List.drop_drop]
  · rintro ⟨a, ts', ⟨m, hm, rfl⟩, n, hn, rfl⟩
    refine ⟨m + n, ?_, by rw [List.drop_drop]⟩
    simp only [bind_apply, hm, hn, Option.map_some, Reading.followedBy, List.append_nil]

theorem yields_ite {c : Prop} [Decidable c] {p q : Parser α} {ts ts' : List Token}
    {a : α} :
    (if c then p else q).Yields ts a ts' ↔ if c then p.Yields ts a ts' else q.Yields ts a ts' := by
  split <;> rfl

/-- What is left when the current token is gone over. -/
theorem drop_advance (ts : List Token) : ts.drop (if ts.isEmpty then 0 else 1) = ts.tail := by
  cases ts <;> rfl

theorem yields_advance {ts ts' : List Token} {u : Unit} :
    advance.Yields ts u ts' ↔ ts' = ts.tail := by
  constructor
  · rintro ⟨count, h, rfl⟩
    simp only [advance, Option.some.injEq, Reading.mk.injEq, and_true, true_and] at h
    rw [← h, drop_advance]
  · rintro rfl
    exact ⟨_, rfl, drop_advance ts⟩

theorem not_yields_complain {c : Complaint} {ts ts' : List Token} {u : Unit} :
    ¬ (complain c).Yields ts u ts' := by
  rintro ⟨count, h, -⟩
  simp [complain] at h

theorem not_yields_tooDeep {ts ts' : List Token} {a : α} :
    ¬ (tooDeep : Parser α).Yields ts a ts' := by
  rintro ⟨count, h, -⟩
  cases h

theorem yields_expect {wanted : Token.Kind} {ts ts' : List Token} {t : Option Token} :
    (expect wanted).Yields ts t ts' ↔
      nextKind ts.tail = wanted ∧ t = ts.tail.head? ∧ ts' = ts.tail := by
  unfold expect
  simp only [yields_bind, yields_upcoming, and_assoc, exists_and_left, exists_eq_left, yields_ite,
    yields_advance, exists_const, yields_pure, not_yields_complain, false_and]
  split
  · next hk => exact ⟨fun h => ⟨hk, h⟩, fun h => h.2⟩
  · next hk => exact ⟨False.elim, fun h => absurd h.1 hk⟩

/-- A token that is demanded has to come up. -/
theorem yields_demand {wanted : Token.Kind} (hw : wanted ≠ .eof) {other : α}
    {p : Token → Parser α} {ts ts' : List Token} {a : α} :
    (demand wanted other p).Yields ts a ts' ↔
      ∃ t rest, ts.tail = t :: rest ∧ t.kind = wanted ∧ (p t).Yields (t :: rest) a ts' := by
  unfold demand
  rw [yields_bind]
  constructor
  · rintro ⟨_, _, he, h⟩
    obtain ⟨hk, rfl, rfl⟩ := yields_expect.mp he
    obtain ⟨t, rest, hts, ht⟩ := exists_cons_of_nextKind hk hw
    rw [hts] at h
    exact ⟨t, rest, hts, ht, h⟩
  · rintro ⟨t, rest, hts, hk, h⟩
    refine ⟨some t, t :: rest, yields_expect.mpr ?_, h⟩
    rw [hts]
    exact ⟨hk, rfl, rfl⟩

/-! ### Loops -/

/-- A loop has a result at once, or goes on with less to read. -/
theorem yields_iterate {step : σ → Parser (σ ⊕ α)} {s : σ} {ts ts' : List Token} {a : α} :
    (iterate step s).Yields ts a ts' ↔ (step s).Yields ts (.inr a) ts' ∨
      ∃ s₁ ts₁, (step s).Yields ts (.inl s₁) ts₁ ∧ ts₁.length < ts.length ∧
        (iterate step s₁).Yields ts₁ a ts' := by
  constructor
  · rintro ⟨count, h, rfl⟩
    rw [iterate_apply] at h
    -- the step stops, ends the loop, or goes on; in the end it has to have read something
    split at h
    · contradiction
    · next a' m cs hs =>
      simp only [Option.some.injEq, Reading.mk.injEq] at h
      obtain ⟨rfl, rfl, rfl⟩ := h
      exact .inl ⟨_, hs, rfl⟩
    · next s₁ m cs hs =>
      split at h
      · next progress =>
        obtain ⟨q, hq, he⟩ := Option.map_eq_some_iff.mp h
        simp only [Reading.followedBy, Reading.mk.injEq, List.append_eq_nil_iff] at he
        obtain ⟨rfl, rfl, rfl, hc⟩ := he
        refine .inr ⟨s₁, ts.drop m, ⟨m, hs, rfl⟩, ?_, q.count, ?_, by rw [List.drop_drop]⟩
        · have := List.length_pos_iff.mpr progress.1
          simp only [List.length_drop]
          omega
        · rw [hq, ← hc]
      · contradiction
  · rintro (⟨count, h, rfl⟩ | ⟨s₁, _, ⟨m, hm, rfl⟩, hlt, n, hn, rfl⟩)
    · exact ⟨count, iterate_of_inr h, rfl⟩
    · simp only [List.length_drop] at hlt
      have some_left : ts ≠ [] := by
        rintro rfl
        simp at hlt
      refine ⟨m + n, ?_, by rw [List.drop_drop]⟩
      rw [iterate_of_inl hm some_left (by omega), hn]
      rfl

/-- Induction along a loop, from its result back to its beginning. -/
theorem Yields.iterate_induction {step : σ → Parser (σ ⊕ α)} {a : α} {ts' : List Token}
    {motive : ∀ s ts, (iterate step s).Yields ts a ts' → Prop}
    (done : ∀ s ts (h : (step s).Yields ts (.inr a) ts'),
      motive s ts (yields_iterate.mpr (.inl h)))
    (more : ∀ s ts s₁ ts₁ (h : (step s).Yields ts (.inl s₁) ts₁) (hlt : ts₁.length < ts.length)
      (h₁ : (iterate step s₁).Yields ts₁ a ts'), motive s₁ ts₁ h₁ →
      motive s ts (yields_iterate.mpr (.inr ⟨s₁, ts₁, h, hlt, h₁⟩)))
    (s : σ) (ts : List Token) (h : (iterate step s).Yields ts a ts') : motive s ts h := by
  rcases yields_iterate.mp h with h | ⟨s₁, ts₁, h₁, hlt, h₂⟩
  · exact done s ts h
  · exact more s ts s₁ ts₁ h₁ hlt h₂ (iterate_induction done more s₁ ts₁ h₂)
termination_by ts.length

end Parser

end Monkey
