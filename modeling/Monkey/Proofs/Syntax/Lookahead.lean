import Monkey.Proofs.Syntax.Enough

/-!
# How far the parser looks ahead

What the parser does depends on few of the tokens in front of it.  Where it has nothing to
complain about, it has looked at the tokens that it went over and at one or two more.  Where it
has, the first complaint is about some token, and it would be the same whatever stood behind that
token.

For two parsers in a row the second one must not complain about a token that the first one has
looked past.  That is why the least place of a complaint is counted along.

## Main definitions

* `Parser.LooksAt`, `Parser.Looks` — how many tokens a parser looks at, and where the token of its
  first complaint stands.

## Main results

* `Parser.LooksAt.bind`, `Parser.looks_iterate` — the combinators.
* `Parse.looks_expression` — expressions look at most at the token that comes up behind them.
* `Parse.looks_program` — the first complaint about a program does not depend on the tokens behind
  the one that it is about.
-/

namespace Monkey

namespace Parser

variable {α β σ : Type} {a a' b b' : Nat} {ts ts' : List Token}

/-- On `ts`, without a complaint the parser looks at the tokens that it goes over and at `b` more;
and its first complaint is about a token with at least `a` in front of it, none of which stands
behind a token that it has looked at. -/
def LooksAt (a b : Nat) (p : Parser α) (ts : List Token) : Prop :=
  ∀ r, p ts = some r →
    (r.complaints = [] → ∀ ts', ts'.take (r.count + b) = ts.take (r.count + b) →
      p ts' = some r) ∧
    ∀ c cs, r.complaints = c :: cs → ∃ i, a ≤ i ∧ ts[i]? = c.token? ∧
      ∀ ts' r', ts'.take (i + 1) = ts.take (i + 1) → p ts' = some r' →
        r'.complaints.head? = some c

/-- The same for all tokens in front. -/
def Looks (a b : Nat) (p : Parser α) : Prop := ∀ ts, LooksAt a b p ts

/-! ### Beginnings of rows -/

theorem take_eq_of_le {m n : Nat} (h : ts'.take n = ts.take n) (hle : m ≤ n) :
    ts'.take m = ts.take m := by
  have := congrArg (List.take m) h
  rwa [List.take_take, List.take_take, Nat.min_eq_left hle] at this

theorem take_drop_eq {m n : Nat} (h : ts'.take (n + m) = ts.take (n + m)) :
    (ts'.drop n).take m = (ts.drop n).take m := by
  rw [List.take_drop, List.take_drop, h]

/-- Rows that begin in the same way further than one of them goes are the same. -/
theorem eq_of_take_eq {n : Nat} (h : ts'.take n = ts.take n) (hn : ts.length < n) : ts' = ts := by
  rw [List.take_of_length_le (Nat.le_of_lt hn)] at h
  have hlength := congrArg List.length h
  rw [List.length_take] at hlength
  rw [← h, List.take_of_length_le (by omega)]

theorem head?_eq_of_take_eq (h : ts'.take 1 = ts.take 1) : ts'.head? = ts.head? := by
  have := congrArg List.head? h
  rwa [List.head?_take, List.head?_take] at this

theorem head?_tail_eq_of_take_eq (h : ts'.take 2 = ts.take 2) :
    ts'.tail.head? = ts.tail.head? := by
  have := take_drop_eq (n := 1) (m := 1) h
  rw [List.drop_one, List.drop_one] at this
  exact head?_eq_of_take_eq this

theorem isEmpty_eq_of_take_eq (h : ts'.take 1 = ts.take 1) : ts'.isEmpty = ts.isEmpty := by
  have hhead := head?_eq_of_take_eq h
  cases ts <;> cases ts' <;> first | rfl | cases hhead

/-! ### Combinators -/

theorem LooksAt.mono {p : Parser α} (h : LooksAt a b p ts) (ha : a' ≤ a) (hb : b ≤ b') :
    LooksAt a' b' p ts := by
  intro r hr
  obtain ⟨hclean, hcomplaint⟩ := h r hr
  refine ⟨fun hc ts' hts => hclean hc ts' (take_eq_of_le hts (by omega)), fun c cs hc => ?_⟩
  obtain ⟨i, hi, hrest⟩ := hcomplaint c cs hc
  exact ⟨i, Nat.le_trans ha hi, hrest⟩

theorem Looks.mono {p : Parser α} (h : Looks a b p) (ha : a' ≤ a) (hb : b ≤ b') :
    Looks a' b' p :=
  fun ts => (h ts).mono ha hb

theorem Looks.weaken {p : Parser α} (h : Looks 1 2 p) : Looks 0 2 p :=
  h.mono (Nat.zero_le 1) (Nat.le_refl 2)

/-- A parser that only looks at the tokens in front, and not too far. -/
theorem looks_of_look {p : Parser α} (look : List Token → α)
    (hp : ∀ ts, p ts = some ⟨look ts, 0, []⟩)
    (hlook : ∀ ts ts', ts'.take b = ts.take b → look ts' = look ts) : Looks a b p := by
  intro ts r hr
  rw [hp, Option.some.injEq] at hr
  subst hr
  refine ⟨fun _ ts' hts => ?_, fun c cs hc => nomatch hc⟩
  rw [hp, hlook ts ts' (by simpa using hts)]

theorem looks_pure (x : α) : Looks a b (pure x) :=
  looks_of_look (fun _ => x) (fun _ => rfl) fun _ _ _ => rfl

theorem looks_current : Looks a 1 current :=
  looks_of_look _ (fun _ => rfl) fun _ _ h => head?_eq_of_take_eq h

theorem looks_upcoming : Looks a 2 upcoming :=
  looks_of_look _ (fun _ => rfl) fun _ _ h => head?_tail_eq_of_take_eq h

theorem looks_upcomingKind : Looks a 2 upcomingKind :=
  looks_of_look _ (fun _ => rfl) fun _ _ h => congrArg Complaint.kindOf (head?_tail_eq_of_take_eq h)

/-- Two parsers in a row.  The second one complains about no token that the first one has looked
past. -/
theorem LooksAt.bind {p : Parser α} {k : α → Parser β} (hp : LooksAt a b p ts)
    {m n : Nat} (hk : ∀ r, p ts = some r → LooksAt m n (k r.value) (ts.drop r.count)) (hle : b ≤ n)
    (hb : b ≤ m + 1) (ha : ∀ r, p ts = some r → r.complaints = [] → a ≤ r.count + m) :
    LooksAt a n (p >>= k) ts := by
  intro r hr
  rw [bind_apply] at hr
  split at hr
  · cases hr
  next r₁ h₁ =>
  obtain ⟨r₂, h₂, rfl⟩ := Option.map_eq_some_iff.mp hr
  obtain ⟨hclean, hcomplaint⟩ := hp r₁ h₁
  obtain ⟨hclean', hcomplaint'⟩ := hk r₁ h₁ r₂ h₂
  refine ⟨fun hc ts' hts => ?_, fun c cs hc => ?_⟩
  · obtain ⟨hc₁, hc₂⟩ := List.append_eq_nil_iff.mp hc
    simp only [Reading.followedBy, Nat.add_assoc] at hts
    have hfirst := hclean hc₁ ts' (take_eq_of_le hts (by omega))
    rw [bind_apply, hfirst]
    dsimp only
    rw [hclean' hc₂ _ (take_drop_eq hts), Option.map_some]
  · cases hc₁ : r₁.complaints with
    | nil =>
      simp only [Reading.followedBy, hc₁, List.nil_append] at hc
      obtain ⟨i, hi, hit, hsame⟩ := hcomplaint' c cs hc
      have hcount := ha r₁ h₁ hc₁
      refine ⟨r₁.count + i, by omega, by rw [← hit, List.getElem?_drop], fun ts' r' hts hr' => ?_⟩
      -- the first part is the same, since it has not looked behind the token
      have hfirst := hclean hc₁ ts' (take_eq_of_le hts (by omega))
      rw [bind_apply, hfirst] at hr'
      obtain ⟨r₂', h₂', rfl⟩ := Option.map_eq_some_iff.mp hr'
      rw [Nat.add_assoc] at hts
      simp only [Reading.followedBy, hc₁, List.nil_append]
      exact hsame _ r₂' (take_drop_eq hts) h₂'
    | cons c₁ cs₁ =>
      simp only [Reading.followedBy, hc₁, List.cons_append, List.cons.injEq] at hc
      obtain ⟨rfl, -⟩ := hc
      obtain ⟨i, hi, hit, hsame⟩ := hcomplaint c₁ cs₁ hc₁
      refine ⟨i, hi, hit, fun ts' r' hts hr' => ?_⟩
      rw [bind_apply] at hr'
      split at hr'
      · cases hr'
      next r₁' h₁' =>
      obtain ⟨r₂', h₂', rfl⟩ := Option.map_eq_some_iff.mp hr'
      rw [Reading.followedBy, List.head?_append, hsame ts' r₁' hts h₁', Option.some_or]

theorem looks_bind {p : Parser α} {k : α → Parser β} (hp : Looks a b p)
    (hk : ∀ x, Looks a' b' (k x)) (ha : a ≤ a') (hle : b ≤ b') (hb : b ≤ a' + 1) :
    Looks a b' (p >>= k) :=
  fun ts => (hp ts).bind (fun _ _ => hk _ _) hle hb fun _ _ _ => by omega

/-- What complains about no token before the one that comes up may follow everything. -/
theorem looks_then {p : Parser α} {k : α → Parser β} (hp : Looks a b p)
    (hk : ∀ x, Looks 1 2 (k x)) (ha : a ≤ 1) (hb : b ≤ 2) : Looks a 2 (p >>= k) :=
  looks_bind hp hk ha hb hb

theorem looks_ite {c : Prop} [Decidable c] {p q : Parser α} (hp : Looks a b p)
    (hq : Looks a b q) : Looks a b (if c then p else q) := by
  split
  · exact hp
  · exact hq

/-- Behind the current token a complaint is about a token further on. -/
theorem looks_advance {k : Unit → Parser α} (hk : Looks a b (k ())) (hb : 1 ≤ b) :
    Looks (a + 1) b (advance >>= k) := by
  intro ts
  have hp : LooksAt (a + 1) 1 advance ts := by
    rintro r ⟨⟩
    refine ⟨fun _ ts' hts => ?_, fun c cs hc => nomatch hc⟩
    rw [advance, isEmpty_eq_of_take_eq (take_eq_of_le hts (Nat.le_add_left 1 _))]
  have hnext : ∀ r, advance ts = some r → LooksAt a b (k r.value) (ts.drop r.count) :=
    fun _ _ => hk _
  cases ts with
  | cons t ts =>
    refine hp.bind hnext hb (by omega) ?_
    rintro r ⟨⟩ _
    exact Nat.le_of_eq (Nat.add_comm a 1)
  | nil =>
    -- at the end nothing is gone over, and any place is as good as another
    intro r hr
    obtain ⟨hclean, hcomplaint⟩ := (hp.mono (Nat.zero_le _) (Nat.le_refl 1)).bind hnext hb
      (by omega) (fun _ _ _ => Nat.zero_le _) r hr
    refine ⟨hclean, fun c cs hc => ?_⟩
    obtain ⟨i, -, hit, hsame⟩ := hcomplaint c cs hc
    refine ⟨a + 1 + i, Nat.le_add_right _ _, ?_, fun ts' r' hts => ?_⟩
    · rw [← hit, List.getElem?_nil, List.getElem?_nil]
    · exact hsame ts' r' (take_eq_of_le hts (by omega))

/-- When the token behind what was read is gone over at last, only one more has been looked at. -/
theorem looks_advance_last {p : Parser α} {g : α → β} (hp : Looks a 2 p) :
    Looks a 1 (do let x ← p; advance; return g x) := by
  intro ts r hr
  rw [bind_apply] at hr
  split at hr
  · cases hr
  next r₁ h₁ =>
  obtain ⟨r₂, h₂, rfl⟩ := Option.map_eq_some_iff.mp hr
  cases h₂
  obtain ⟨hclean, hcomplaint⟩ := hp ts r₁ h₁
  refine ⟨fun hc ts' hts => ?_, fun c cs hc => ?_⟩
  · obtain ⟨hc₁, -⟩ := List.append_eq_nil_iff.mp hc
    by_cases hend : ts.length ≤ r₁.count
    · -- nothing is left, so there is no other row of tokens
      rw [eq_of_take_eq hts (by simp only [Reading.followedBy]; omega), bind_apply, h₁]
      rfl
    · have hne : ∀ us : List Token, us.take (r₁.count + 2) = ts.take (r₁.count + 2) →
          (us.drop r₁.count).isEmpty = false := by
        intro us hus
        have hlength := congrArg List.length hus
        rw [List.length_take, List.length_take] at hlength
        rw [List.isEmpty_eq_false_iff_exists_mem]
        refine List.exists_mem_of_length_pos ?_
        rw [List.length_drop]
        omega
      simp only [Reading.followedBy, hne ts rfl, Bool.false_eq_true, if_false] at hts
      have hfirst := hclean hc₁ ts' (take_eq_of_le hts (by omega))
      have hsame := hne ts' (take_eq_of_le hts (by omega))
      rw [bind_apply, hfirst]
      simp only [bind_apply, advance, pure_apply, hsame, hne ts rfl, Option.map_some,
        Reading.followedBy]
  · simp only [Reading.followedBy, List.append_nil] at hc
    obtain ⟨i, hi, hit, hsame⟩ := hcomplaint c cs hc
    refine ⟨i, hi, hit, fun ts' r' hts hr' => ?_⟩
    rw [bind_apply] at hr'
    split at hr'
    · cases hr'
    next r₁' h₁' =>
    obtain ⟨r₂', h₂', rfl⟩ := Option.map_eq_some_iff.mp hr'
    rw [Reading.followedBy, List.head?_append, hsame ts' r₁' hts h₁', Option.some_or]

/-- A complaint that is made at once. -/
theorem looksAt_complain {c : Complaint} {i : Nat} (hi : ts[i]? = c.token?) (ha : a ≤ i) (x : α) :
    LooksAt a b (do complain c; return x) ts := by
  rintro r ⟨⟩
  refine ⟨fun hc => absurd hc (List.cons_ne_nil _ _), ?_⟩
  rintro _ _ ⟨⟩
  refine ⟨i, ha, hi, ?_⟩
  rintro ts' r' - ⟨⟩
  rfl

theorem looks_expect {wanted : Token.Kind} (hw : wanted ≠ .eof) : Looks 1 1 (expect wanted) := by
  intro ts r hr
  by_cases hk : nextKind ts.tail = wanted
  · rw [expect_of_eq hk, Option.some.injEq] at hr
    subst hr
    refine ⟨fun _ ts' hts => ?_, fun c cs hc => nomatch hc⟩
    obtain ⟨t, rest, htail, -⟩ := exists_cons_of_nextKind hk hw
    cases ts with
    | nil => cases htail
    | cons s ts =>
      have hhead := head?_tail_eq_of_take_eq hts
      have hempty := isEmpty_eq_of_take_eq (take_eq_of_le hts (Nat.le_succ 1))
      rw [expect_of_eq (by rw [nextKind, hhead]; exact hk), hhead, hempty]
  · rw [expect_of_ne hk, Option.some.injEq] at hr
    subst hr
    refine ⟨fun hc => absurd hc (List.cons_ne_nil _ _), ?_⟩
    rintro _ _ ⟨⟩
    refine ⟨1, Nat.le_refl 1, by rw [Complaint.token?, List.head?_tail], fun ts' r' hts hr' => ?_⟩
    have hhead := head?_tail_eq_of_take_eq hts
    rw [expect_of_ne (by rw [nextKind, hhead]; exact hk), Option.some.injEq] at hr'
    rw [← hr', hhead]
    rfl

/-- A token that is demanded stands behind the current one. -/
theorem looks_demand {wanted : Token.Kind} (hw : wanted ≠ .eof) {other : α}
    {p : Token → Parser α} (hp : ∀ t, Looks 1 2 (p t)) : Looks 1 2 (demand wanted other p) := by
  refine looks_then (looks_expect hw) (fun t => ?_) (Nat.le_refl 1) (Nat.le_succ 1)
  cases t with
  | some t => exact hp t
  | none => exact looks_pure other

/-! ### Loops -/

/-- A loop whose step reads something is its step and then itself. -/
theorem iterate_eq_bind {step : σ → Parser (σ ⊕ α)} (shortens : ∀ s ts, Shortens ts (step s) ts)
    (s : σ) : iterate step s = step s >>= Sum.elim (iterate step) pure := by
  funext ts
  rw [bind_apply]
  cases h : step s ts with
  | none => rw [iterate_apply, h]
  | some r =>
    obtain ⟨s' | x, count, complaints⟩ := r
    · have shorter := shortens s ts _ _ _ h
      rw [List.length_drop] at shorter
      rw [iterate_of_inl h (List.ne_nil_of_length_pos (by omega)) (by omega)]
      rfl
    · rw [iterate_of_inr h]
      simp only [Sum.elim_inr, pure_apply, Option.map_some, Reading.followedBy, Nat.add_zero,
        List.append_nil]

theorem looks_iterate {step : σ → Parser (σ ⊕ α)} (hs : ∀ s, Looks a b (step s))
    (shortens : ∀ s ts, Shortens ts (step s) ts) (hb : b ≤ a + 1) (s : σ) :
    Looks a b (iterate step s) := by
  intro ts
  induction hn : ts.length using Nat.strongRecOn generalizing s ts with
  | ind n ih =>
    rw [iterate_eq_bind shortens]
    refine (hs s ts).bind (m := a) (fun r hr => ?_) (Nat.le_refl b) hb fun _ _ _ =>
      Nat.le_add_left a _
    obtain ⟨s' | x, count, complaints⟩ := r
    · exact ih _ (hn ▸ shortens s ts _ _ _ hr) s' _ rfl
    · exact looks_pure x _

end Parser

namespace Parse

open Monkey.Parser

variable {E : Expressions} {t : Token}

/-- Expressions look at most at the token that comes up behind them. -/
def LooksAll (E : Expressions) : Prop := ∀ level, Looks 0 2 (E level)

/-- What follows an expression. -/
theorem looks_expression_then {α : Type} (hE : LooksAll E) (level : Level) {k : Node → Parser α}
    (hk : ∀ n, Looks 1 2 (k n)) : Looks 0 2 (E level >>= k) :=
  looks_then (hE level) hk (Nat.zero_le 1) (Nat.le_refl 2)

/-- What looks at the token that comes up. -/
theorem looks_upcomingKind_then {α : Type} {k : Token.Kind → Parser α}
    (hk : ∀ kind, Looks 1 2 (k kind)) : Looks 1 2 (upcomingKind >>= k) :=
  looks_then looks_upcomingKind hk (Nat.le_refl 1) (Nat.le_refl 2)

/-- What is read behind the current token. -/
theorem looks_behind {α : Type} {k : Unit → Parser α} (hk : Looks 0 2 (k ())) :
    Looks 1 2 (advance >>= k) :=
  looks_advance hk (by decide)

/-! ### Statements -/

theorem looks_optionalSemicolon : Looks 1 2 optionalSemicolon :=
  looks_upcomingKind_then fun _ => looks_ite (looks_behind (looks_pure ())) (looks_pure ())

/-- An expression at the end of a statement, and the semicolon that may follow. -/
theorem looks_ending (hE : LooksAll E) (g : Node → Node) :
    Looks 0 2 (do let value ← E .lowest; optionalSemicolon; return g value) :=
  looks_expression_then hE .lowest fun _ =>
    looks_then looks_optionalSemicolon (fun _ => looks_pure _) (Nat.le_refl 1) (Nat.le_refl 2)

theorem looks_statement (hE : LooksAll E) : Looks 0 2 (statement E t) := by
  unfold statement
  split
  · refine Looks.weaken (looks_demand (by decide) fun name => looks_demand (by decide) fun _ => ?_)
    exact looks_behind (looks_ending hE _)
  · exact Looks.weaken (looks_behind (looks_ending hE _))
  · exact looks_ending hE _

theorem looks_moreStatements (hE : LooksAll E) (ends : Token.Kind → Bool) (ns : List Node) :
    Looks 0 1 (moreStatements E ends ns) := by
  refine looks_bind looks_current (fun token => ?_) (Nat.le_refl 0) (Nat.le_refl 1) (Nat.le_refl 1)
  cases token with
  | none => exact looks_pure _
  | some token => exact looks_ite (looks_pure _) (looks_advance_last (looks_statement hE))

theorem looks_statements (hE : LooksAll E) (ends : Token.Kind → Bool) (g : List Node → Node) :
    Looks 0 1 (do let ns ← iterate (moreStatements E ends) []; return g ns) :=
  looks_bind
    (looks_iterate (looks_moreStatements hE ends) (shortens_moreStatements ends) (Nat.le_refl 1) [])
    (fun _ => looks_pure _) (Nat.le_refl 0) (Nat.le_refl 1) (Nat.le_refl 1)

theorem looks_block (hE : LooksAll E) : Looks 1 1 (block E t) :=
  looks_advance (looks_statements hE _ _) (Nat.le_refl 1)

theorem looks_block_then {α : Type} (hE : LooksAll E) {k : Node → Parser α}
    (hk : ∀ n, Looks 1 2 (k n)) : Looks 1 2 (block E t >>= k) :=
  looks_then (looks_block hE) hk (Nat.le_refl 1) (Nat.le_succ 1)

/-- The first complaint about a program does not depend on the tokens behind the one that it is
about. -/
theorem looks_program (hE : LooksAll E) : Looks 0 1 (program E) :=
  looks_statements hE _ _

/-! ### Lists -/

theorem looks_moreItems (hE : LooksAll E) {close : Token.Kind} (hc : close ≠ .eof)
    (ns : List Node) : Looks 1 2 (moreItems E close ns) := by
  refine looks_upcomingKind_then fun _ => looks_ite ?_ (looks_demand hc fun _ => looks_pure _)
  refine looks_behind (looks_behind ?_).weaken
  exact looks_expression_then hE .lowest fun _ => looks_pure _

theorem looks_items (hE : LooksAll E) {close : Token.Kind} (hc : close ≠ .eof) :
    Looks 1 2 (items E close) := by
  refine looks_upcomingKind_then fun _ => looks_ite (looks_behind (looks_pure _)) ?_
  refine looks_behind (looks_expression_then hE .lowest fun _ => ?_)
  exact looks_iterate (looks_moreItems hE hc) (shortens_moreItems hc) (Nat.le_refl 2) _

theorem looks_moreParameters (ns : List Node) : Looks 1 2 (moreParameters ns) := by
  refine looks_upcomingKind_then fun _ => looks_ite (looks_behind ?_) ?_
  · exact (looks_demand (by decide) fun t => looks_pure _).weaken
  · exact looks_demand (by decide) fun _ => looks_pure _

theorem looks_parameters : Looks 1 2 parameters := by
  refine looks_upcomingKind_then fun _ => looks_ite (looks_behind (looks_pure _)) ?_
  exact looks_demand (by decide) fun t =>
    looks_iterate looks_moreParameters shortens_moreParameters (Nat.le_refl 2) _

theorem looks_morePairs (hE : LooksAll E) (ps : List (Node × Node)) :
    Looks 1 2 (morePairs E ps) := by
  refine looks_upcomingKind_then fun _ => looks_ite (looks_behind (looks_pure _)) ?_
  refine looks_behind (looks_expression_then hE .lowest fun key => ?_)
  refine looks_demand (by decide) fun _ => looks_behind ?_
  refine looks_expression_then hE .lowest fun value => looks_ite (looks_pure _) ?_
  refine looks_upcomingKind_then fun _ => looks_ite (looks_pure _) ?_
  exact looks_demand (by decide) fun _ => looks_pure _

/-! ### Operands and operators -/

/-- An expression in front of a token that has to follow. -/
theorem looks_enclosed (hE : LooksAll E) {close : Token.Kind} (hc : close ≠ .eof) {other : Node}
    {p : Node → Token → Parser Node} (hp : ∀ n t, Looks 1 2 (p n t)) :
    Looks 1 2 (do advance; let n ← E .lowest; demand close other (p n)) :=
  looks_behind (looks_expression_then hE .lowest fun n => looks_demand hc (hp n))

theorem looks_conditional (hE : LooksAll E) : Looks 1 2 (conditional E t) := by
  refine looks_demand (by decide) fun _ => looks_enclosed hE (by decide) fun condition _ => ?_
  refine looks_demand (by decide) fun brace => looks_block_then hE fun consequence => ?_
  refine looks_upcomingKind_then fun _ => looks_ite (looks_behind ?_) (looks_pure _)
  refine Looks.weaken (looks_demand (by decide) fun brace => ?_)
  exact looks_block_then hE fun alternative => looks_pure _

theorem looks_function (hE : LooksAll E) : Looks 1 2 (function E t) := by
  refine looks_demand (by decide) fun _ => ?_
  refine looks_then looks_parameters (fun names => ?_) (Nat.le_refl 1) (Nat.le_refl 2)
  cases names with
  | none => exact looks_pure _
  | some names =>
    exact looks_demand (by decide) fun brace => looks_block_then hE fun body => looks_pure _

theorem looks_array (hE : LooksAll E) : Looks 1 2 (array E t) := by
  refine looks_then (looks_items hE (by decide)) (fun elements => ?_) (Nat.le_refl 1)
    (Nat.le_refl 2)
  cases elements <;> exact looks_pure _

theorem looks_hash (hE : LooksAll E) : Looks 1 2 (hash E t) := by
  refine looks_then (looks_iterate (looks_morePairs hE) shortens_morePairs (Nat.le_refl 2) [])
    (fun pairs => ?_) (Nat.le_refl 1) (Nat.le_refl 2)
  cases pairs <;> exact looks_pure _

/-- An integer is complained about where it stands. -/
theorem looksAt_integer (rest : List Token) : LooksAt 0 2 (integer t) (t :: rest) := by
  unfold integer
  split
  · exact looks_pure _ _
  · exact looksAt_complain (i := 0) rfl (Nat.le_refl 0) _

theorem looksAt_operand? (hE : LooksAll E) {operand : Parser Node}
    (ho : operand? E t = some operand) (rest : List Token) : LooksAt 0 2 operand (t :: rest) := by
  unfold operand? at ho
  split at ho <;> cases ho
  case h_1 | h_3 | h_4 | h_5 => exact looks_pure _ _
  case h_2 => exact looksAt_integer rest
  case h_6 | h_7 =>
    exact Looks.weaken (looks_behind (looks_expression_then hE .prefixed fun _ => looks_pure _)) _
  case h_8 => exact Looks.weaken (looks_enclosed hE (by decide) fun _ _ => looks_pure _) _
  case h_9 => exact (looks_conditional hE).weaken _
  case h_10 => exact (looks_function hE).weaken _
  case h_11 => exact (looks_array hE).weaken _
  case h_12 => exact (looks_hash hE).weaken _

theorem looks_extend (hE : LooksAll E) (left : Node) : Looks 1 2 (extend E left t) := by
  unfold extend
  split
  · refine looks_then (looks_items hE (by decide)) (fun arguments => ?_) (Nat.le_refl 1)
      (Nat.le_refl 2)
    cases arguments <;> exact looks_pure _
  · exact looks_enclosed hE (by decide) fun _ _ => looks_pure _
  · exact looks_behind (looks_expression_then hE _ fun _ => looks_pure _)

theorem looks_climb (hE : LooksAll E) (level : Level) (left : Node) :
    Looks 1 2 (climb E level left) := by
  refine looks_then looks_upcoming (fun token => ?_) (Nat.le_refl 1) (Nat.le_refl 2)
  cases token with
  | none => exact looks_pure _
  | some token =>
    refine looks_ite (looks_behind (Looks.weaken ?_)) (looks_pure _)
    exact looks_then (looks_extend hE left) (fun _ => looks_pure _) (Nat.le_refl 1) (Nat.le_refl 2)

/-- Expressions look at most at the token that comes up behind them. -/
theorem looks_expression (depth : Nat) : LooksAll (expression depth) := by
  induction depth with
  | zero => exact fun _ _ _ h => nomatch h
  | succ depth ih =>
    intro level ts
    refine (looks_current ts).bind (m := 0) (n := 2) ?_ (by decide) (by decide)
      fun _ _ _ => Nat.zero_le _
    rintro r ⟨⟩
    dsimp only
    rw [List.drop_zero]
    split
    · exact looksAt_complain (i := 0) (by rw [← List.head?_eq_getElem?]; rfl) (Nat.le_refl 0) _
    · next operand ho =>
      obtain ⟨t, ht, ho⟩ := Option.bind_eq_some_iff.mp ho
      obtain ⟨rest, rfl⟩ := List.head?_eq_some_iff.mp ht
      refine (looksAt_operand? ih ho rest).bind (m := 1) (fun r _ => ?_) (Nat.le_refl 2)
        (Nat.le_refl 2) fun _ _ _ => Nat.zero_le _
      exact looks_iterate (looks_climb ih level) (shortens_climb level) (Nat.le_refl 2) _ _

end Parse

end Monkey
