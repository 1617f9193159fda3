import Monkey.Proofs.Syntax.Clean

/-!
# From the parts of the parser to all of it

Much of what is proved about the parser holds of a construct as soon as it holds of the expressions
in it, because it holds of whatever is put together from parts.  For such a statement the way
through all constructs is the same, and it is gone here once.

An expression further down begins behind a token that its construct has gone over, so a construct
may be read where one token more is left than its expressions may be read at.  The loops go on only
where a token has been gone over, so they end.

## Main definitions

* `Parser.Shortens` — where a parser goes on, fewer tokens are left.
* `Parser.Compositional` — a statement that holds of a whole if it holds of its parts.
* `Parser.Holds` — a statement holds of a parser at every short list of tokens.
* `Parse.nested` — one expression over the parser for those further down.

## Main results

* `holds_iterate` — loops whose steps read something.
* `holds_nested`, `holds_program` — expressions and programs.
-/

namespace Monkey

namespace Parser

variable {α β σ : Type}

/-! ### Tokens that are expected -/

theorem expect_of_eq {wanted : Token.Kind} {ts : List Token} (h : nextKind ts.tail = wanted) :
    expect wanted ts = some ⟨ts.tail.head?, if ts.isEmpty then 0 else 1, []⟩ := by
  unfold expect
  simp only [bind_apply, upcoming, List.drop_zero]
  split
  · cases ts <;> rfl
  · next hn => exact absurd h hn

theorem expect_of_ne {wanted : Token.Kind} {ts : List Token} (h : nextKind ts.tail ≠ wanted) :
    expect wanted ts = some ⟨none, 0, [.expected wanted ts.tail.head?]⟩ := by
  unfold expect
  simp only [bind_apply, upcoming, List.drop_zero]
  split
  · next hk => exact absurd hk h
  · rfl

/-! ### Steps that read something -/

/-- Whenever the parser goes on from `ts`, fewer tokens are left than there are in `start`. -/
def Shortens (start : List Token) (p : Parser (σ ⊕ α)) (ts : List Token) : Prop :=
  ∀ s count complaints, p ts = some ⟨.inl s, count, complaints⟩ →
    (ts.drop count).length < start.length

section

variable {start ts : List Token}

theorem shortens_of_lt {p : Parser (σ ⊕ α)} (h : ts.length < start.length) :
    Shortens start p ts := by
  intro s count complaints _
  rw [List.length_drop]
  omega

theorem shortens_inr (a : α) : Shortens start (pure (.inr a) : Parser (σ ⊕ α)) ts := by
  rintro s count complaints ⟨⟩

theorem shortens_bind {p : Parser β} {k : β → Parser (σ ⊕ α)}
    (h : ∀ r, p ts = some r → Shortens start (k r.value) (ts.drop r.count)) :
    Shortens start (p >>= k) ts := by
  intro s count complaints hs
  rw [bind_apply] at hs
  split at hs
  · contradiction
  · next r hr =>
    obtain ⟨⟨q, m, cs⟩, hq, he⟩ := Option.map_eq_some_iff.mp hs
    simp only [Reading.followedBy, Reading.mk.injEq] at he
    obtain ⟨rfl, rfl, -⟩ := he
    rw [← List.drop_drop]
    exact h r hr _ _ _ hq

/-- A token that is demanded and does not come up ends the loop. -/
theorem shortens_demand {wanted : Token.Kind} (hw : wanted ≠ .eof) {a : α}
    {p : Token → Parser (σ ⊕ α)}
    (hp : ∀ t rest, ts.tail = t :: rest → Shortens start (p t) (t :: rest)) :
    Shortens start (demand wanted (.inr a) p) ts := by
  refine shortens_bind fun r hr => ?_
  by_cases hk : nextKind ts.tail = wanted
  · rw [expect_of_eq hk, Option.some.injEq] at hr
    subst hr
    obtain ⟨t, rest, htail, -⟩ := exists_cons_of_nextKind hk hw
    obtain _ | ⟨t', ts⟩ := ts
    · contradiction
    · obtain rfl : ts = t :: rest := htail
      exact hp t rest rfl
  · rw [expect_of_ne hk, Option.some.injEq] at hr
    subst hr
    exact shortens_inr a

end

/-! ### Statements about parsers -/

/-- A statement about a parser and the tokens in front of it holds of the parsers that only look,
complain or go over a token, of two parsers in a row if it holds of both, and of a loop if it holds
of each round and every round reads something. -/
class Compositional (H : (α : Type) → Parser α → List Token → Prop) : Prop where
  of_pure : ∀ {α : Type} (a : α) ts, H α (pure a) ts
  of_current : ∀ ts, H _ current ts
  of_upcoming : ∀ ts, H _ upcoming ts
  of_complain : ∀ c ts, H _ (complain c) ts
  of_advance : ∀ ts, H _ advance ts
  of_bind : ∀ {α β : Type} {p : Parser α} {k : α → Parser β} {ts : List Token}, H α p ts →
    (∀ r, p ts = some r → H β (k r.value) (ts.drop r.count)) → H β (p >>= k) ts
  of_iterate : ∀ {σ α : Type} {step : σ → Parser (σ ⊕ α)} {s : σ} {ts : List Token},
    H _ (step s) ts → Shortens ts (step s) ts →
    (∀ s' count complaints, step s ts = some ⟨.inl s', count, complaints⟩ →
      H α (iterate step s') (ts.drop count)) →
    H α (iterate step s) ts

/-- The statement holds of the parser whenever no more than `bound` tokens are left. -/
def Holds (H : (α : Type) → Parser α → List Token → Prop) (bound : Nat) (p : Parser α) : Prop :=
  ∀ ts : List Token, ts.length ≤ bound → H α p ts

section

variable {H : (α : Type) → Parser α → List Token → Prop} {bound : Nat}

theorem Holds.mono {bound' : Nat} {p : Parser α} (h : Holds H bound' p) (hle : bound ≤ bound') :
    Holds H bound p :=
  fun ts hts => h ts (Nat.le_trans hts hle)

theorem holds_ite {c : Prop} [Decidable c] {p q : Parser α} (hp : Holds H bound p)
    (hq : Holds H bound q) : Holds H bound (if c then p else q) := by
  split
  · exact hp
  · exact hq

variable [Compositional H]

theorem holds_pure (a : α) : Holds H bound (pure a) := fun ts _ => Compositional.of_pure a ts

theorem holds_current : Holds H bound current := fun ts _ => Compositional.of_current ts

theorem holds_upcoming : Holds H bound upcoming := fun ts _ => Compositional.of_upcoming ts

theorem holds_complain (c : Complaint) : Holds H bound (complain c) := fun ts _ =>
  Compositional.of_complain c ts

theorem holds_advance : Holds H bound advance := fun ts _ => Compositional.of_advance ts

theorem holds_bind {p : Parser α} {k : α → Parser β} (hp : Holds H bound p)
    (hk : ∀ a, Holds H bound (k a)) : Holds H bound (p >>= k) := by
  intro ts hts
  refine Compositional.of_bind (hp ts hts) fun r _ => hk r.value _ ?_
  -- what the first part leaves is no more than there was
  rw [List.length_drop]
  omega

theorem holds_upcomingKind : Holds H bound upcomingKind :=
  holds_bind holds_upcoming fun _ => holds_pure _

/-- Behind the current token there is one token less. -/
theorem holds_advance_bind {k : Unit → Parser α} (hk : Holds H bound (k ())) :
    Holds H (bound + 1) (advance >>= k) := by
  intro ts hts
  refine Compositional.of_bind (Compositional.of_advance ts) fun r hr => hk _ ?_
  obtain rfl := Option.some.inj hr
  dsimp only
  rw [drop_advance, List.length_tail]
  omega

theorem holds_expect (wanted : Token.Kind) : Holds H bound (expect wanted) := by
  refine holds_bind holds_upcoming fun next => holds_ite ?_ ?_
  · exact holds_bind holds_advance fun _ => holds_pure _
  · exact holds_bind (holds_complain _) fun _ => holds_pure _

/-- Behind a token that came up there is one token less. -/
theorem holds_demand_succ {wanted : Token.Kind} {other : α} {p : Token → Parser α}
    (hp : ∀ t, Holds H bound (p t)) : Holds H (bound + 1) (demand wanted other p) := by
  intro ts hts
  refine Compositional.of_bind (holds_expect wanted ts hts) fun r hr => ?_
  by_cases hk : nextKind ts.tail = wanted
  · rw [expect_of_eq hk, Option.some.injEq] at hr
    subst hr
    -- the token that came up is now the current one, and the one before it is gone
    match ts, hts with
    | [], _ => exact Compositional.of_pure _ _
    | [_], _ => exact Compositional.of_pure _ _
    | _ :: t :: ts, hts => exact hp t _ (Nat.le_of_succ_le_succ hts)
  · rw [expect_of_ne hk, Option.some.injEq] at hr
    subst hr
    exact Compositional.of_pure _ _

theorem holds_demand {wanted : Token.Kind} {other : α} {p : Token → Parser α}
    (hp : ∀ t, Holds H bound (p t)) : Holds H bound (demand wanted other p) :=
  (holds_demand_succ hp).mono (Nat.le_succ _)

theorem holds_iterate {step : σ → Parser (σ ⊕ α)} (hs : ∀ s, Holds H bound (step s))
    (shortens : ∀ s ts, Shortens ts (step s) ts) (s : σ) : Holds H bound (iterate step s) := by
  intro ts
  -- the bound stays, and what is left gets shorter
  induction hn : ts.length using Nat.strongRecOn generalizing s ts with
  | ind n ih =>
    intro hle
    refine Compositional.of_iterate (hs s ts (hn ▸ hle)) (shortens s ts) ?_
    intro s' count complaints hr
    have shorter := hn ▸ shortens s ts _ _ _ hr
    exact ih _ shorter s' _ rfl (Nat.le_trans (Nat.le_of_lt shorter) hle)

end

end Parser

namespace Parse

open Monkey.Parser

variable {H : (α : Type) → Parser α → List Token → Prop} [Compositional H] {E : Expressions}
  {bound : Nat} {t : Token}

/-- The statement holds of the expressions over which the constructs are. -/
def HoldsAll (H : (α : Type) → Parser α → List Token → Prop) (bound : Nat) (E : Expressions) :
    Prop :=
  ∀ level, Holds H bound (E level)

/-! ### Statements -/

theorem holds_optionalSemicolon : Holds H bound optionalSemicolon :=
  holds_bind holds_upcomingKind fun _ => holds_ite holds_advance (holds_pure ())

/-- The expression of a statement, and the semicolon behind it. -/
theorem holds_value (hE : HoldsAll H bound E) (make : Node → Node) :
    Holds H bound (do let value ← E .lowest; optionalSemicolon; return make value) :=
  holds_bind (hE .lowest) fun _ => holds_bind holds_optionalSemicolon fun _ => holds_pure _

theorem holds_letStatement (hE : HoldsAll H bound E) : Holds H bound (letStatement E t) := by
  have h : Holds H (bound + 3) (letStatement E t) :=
    holds_demand_succ fun _ => holds_demand_succ fun _ => holds_advance_bind (holds_value hE _)
  exact h.mono (Nat.le_add_right _ _)

theorem holds_returnStatement (hE : HoldsAll H bound E) : Holds H bound (returnStatement E t) := by
  have h : Holds H (bound + 1) (returnStatement E t) := holds_advance_bind (holds_value hE _)
  exact h.mono (Nat.le_add_right _ _)

theorem holds_statement (hE : HoldsAll H bound E) : Holds H bound (statement E t) := by
  unfold statement
  split
  · exact holds_letStatement hE
  · exact holds_returnStatement hE
  · exact holds_value hE _

theorem holds_moreStatements (hE : HoldsAll H bound E) (ends : Token.Kind → Bool) (ns : List Node) :
    Holds H bound (moreStatements E ends ns) := by
  refine holds_bind holds_current fun token => ?_
  cases token with
  | none => exact holds_pure _
  | some token =>
    refine holds_ite (holds_pure _) ?_
    exact holds_bind (holds_statement hE) fun _ => holds_bind holds_advance fun _ => holds_pure _

/-- A statement has a first token, and behind it that one is gone. -/
theorem shortens_moreStatements (ends : Token.Kind → Bool) (ns : List Node) (ts : List Token) :
    Shortens ts (moreStatements E ends ns) ts := by
  refine shortens_bind fun r hr => ?_
  obtain rfl := Option.some.inj hr
  cases ts with
  | nil => exact shortens_inr _
  | cons token ts =>
    dsimp only [List.head?_cons]
    split
    · exact shortens_inr _
    · refine shortens_bind fun r hr => shortens_bind fun r' hr' => shortens_of_lt ?_
      obtain rfl := Option.some.inj hr'
      dsimp only
      rw [drop_advance, List.length_tail, List.length_drop, List.drop_zero, List.length_cons]
      omega

theorem holds_block (hE : HoldsAll H bound E) : Holds H (bound + 1) (block E t) :=
  holds_advance_bind <| holds_bind
    (holds_iterate (holds_moreStatements hE _) (shortens_moreStatements _) [])
    fun _ => holds_pure _

theorem holds_program (hE : HoldsAll H bound E) : Holds H bound (program E) :=
  holds_bind (holds_iterate (holds_moreStatements hE _) (shortens_moreStatements _) [])
    fun _ => holds_pure _

/-! ### Lists -/

theorem holds_moreItems (hE : HoldsAll H bound E) (close : Token.Kind) (ns : List Node) :
    Holds H (bound + 1) (moreItems E close ns) := by
  refine holds_bind holds_upcomingKind fun kind => holds_ite (holds_advance_bind ?_) ?_
  · exact holds_bind holds_advance fun _ => holds_bind (hE .lowest) fun _ => holds_pure _
  · exact holds_demand fun _ => holds_pure _

/-- What comes up stands behind the current token, which is gone then. -/
theorem shortens_advance {α σ : Type} {k : Unit → Parser (σ ⊕ α)} {ts : List Token}
    (h : ts.tail ≠ []) : Shortens ts (advance >>= k) ts := by
  refine shortens_bind fun r hr => shortens_of_lt ?_
  obtain rfl := Option.some.inj hr
  cases ts with
  | nil => contradiction
  | cons t ts => exact Nat.lt_succ_self _

theorem tail_ne_nil_of_nextKind {ts : List Token} {kind : Token.Kind}
    (h : nextKind ts.tail = kind) (hk : kind ≠ .eof) : ts.tail ≠ [] := by
  obtain ⟨t, rest, htail, -⟩ := exists_cons_of_nextKind h hk
  rw [htail]
  exact List.cons_ne_nil t rest

theorem shortens_moreItems {close : Token.Kind} (hc : close ≠ .eof) (ns : List Node)
    (ts : List Token) : Shortens ts (moreItems E close ns) ts := by
  refine shortens_bind fun r hr => ?_
  obtain rfl := Option.some.inj hr
  dsimp only
  split
  · next hk => exact shortens_advance (tail_ne_nil_of_nextKind hk (by decide))
  · exact shortens_demand hc fun _ _ _ => shortens_inr _

theorem holds_items (hE : HoldsAll H bound E) {close : Token.Kind} (hc : close ≠ .eof) :
    Holds H (bound + 1) (items E close) := by
  refine holds_bind holds_upcomingKind fun kind => holds_ite ?_ (holds_advance_bind ?_)
  · exact holds_bind holds_advance fun _ => holds_pure _
  · refine holds_bind (hE .lowest) fun _ => ?_
    exact (holds_iterate (holds_moreItems hE close) (shortens_moreItems hc) _).mono (Nat.le_succ _)

theorem holds_moreParameters (ns : List Node) : Holds H (bound + 1) (moreParameters ns) := by
  refine holds_bind holds_upcomingKind fun kind => holds_ite ?_ (holds_demand fun _ => holds_pure _)
  exact holds_bind holds_advance fun _ => holds_demand fun _ => holds_pure _

theorem shortens_moreParameters (ns : List Node) (ts : List Token) :
    Shortens ts (moreParameters ns) ts := by
  refine shortens_bind fun r hr => ?_
  obtain rfl := Option.some.inj hr
  dsimp only
  split
  · next hk => exact shortens_advance (tail_ne_nil_of_nextKind hk (by decide))
  · exact shortens_demand (by decide) fun _ _ _ => shortens_inr _

theorem holds_parameters : Holds H (bound + 2) parameters := by
  refine holds_bind holds_upcomingKind fun kind => holds_ite ?_ (holds_demand_succ fun _ => ?_)
  · exact holds_bind holds_advance fun _ => holds_pure _
  · exact holds_iterate holds_moreParameters shortens_moreParameters _

theorem holds_morePairs (hE : HoldsAll H bound E) (ps : List (Node × Node)) :
    Holds H (bound + 1) (morePairs E ps) := by
  refine holds_bind holds_upcomingKind fun kind => holds_ite ?_ (holds_advance_bind ?_)
  · exact holds_bind holds_advance fun _ => holds_pure _
  · refine holds_bind (hE .lowest) fun key => holds_demand fun _ => ?_
    refine holds_bind holds_advance fun _ => holds_bind (hE .lowest) fun value => ?_
    refine holds_ite (holds_pure _) (holds_bind holds_upcomingKind fun kind => ?_)
    refine holds_ite (holds_pure _) (holds_demand fun _ => ?_)
    exact holds_pure _

/-- A pair is read only where a token is left: otherwise its colon does not come up. -/
theorem shortens_morePairs (ps : List (Node × Node)) (ts : List Token) :
    Shortens ts (morePairs E ps) ts := by
  refine shortens_bind fun r hr => ?_
  obtain rfl := Option.some.inj hr
  dsimp only
  split
  · exact shortens_bind fun _ _ => shortens_inr _
  · refine shortens_bind fun r hr => ?_
    obtain rfl := Option.some.inj hr
    cases ts with
    | nil =>
      -- the key is a complaint, and the colon is not there
      refine shortens_bind fun r _ => shortens_demand (by decide) fun t rest h => ?_
      simp only [List.drop_nil, List.tail_nil] at h
      contradiction
    | cons t ts => exact shortens_of_lt (Nat.lt_succ_self _)

/-! ### Operands and operators -/

theorem holds_conditional (hE : HoldsAll H bound E) : Holds H (bound + 1) (conditional E t) := by
  refine holds_demand_succ fun _ => holds_bind holds_advance fun _ => ?_
  refine holds_bind (hE .lowest) fun condition => holds_demand fun _ => ?_
  refine holds_demand fun brace => ?_
  refine holds_bind ((holds_block hE).mono (Nat.le_succ _)) fun consequence => ?_
  refine holds_bind holds_upcomingKind fun kind => holds_ite ?_ (holds_pure _)
  refine holds_bind holds_advance fun _ => holds_demand fun brace => ?_
  exact holds_bind ((holds_block hE).mono (Nat.le_succ _)) fun _ => holds_pure _

theorem holds_function (hE : HoldsAll H bound E) : Holds H (bound + 1) (function E t) := by
  refine holds_demand_succ fun _ => ?_
  refine holds_bind (holds_parameters.mono (Nat.le_add_right _ 2)) fun names => ?_
  cases names with
  | none => exact holds_pure _
  | some names =>
    refine holds_demand fun brace => ?_
    exact holds_bind ((holds_block hE).mono (Nat.le_succ _)) fun _ => holds_pure _

theorem holds_array (hE : HoldsAll H bound E) : Holds H (bound + 1) (array E t) := by
  refine holds_bind (holds_items hE (by decide)) fun elements => ?_
  cases elements <;> exact holds_pure _

theorem holds_hash (hE : HoldsAll H bound E) : Holds H (bound + 1) (hash E t) := by
  refine holds_bind (holds_iterate (holds_morePairs hE) shortens_morePairs []) fun pairs => ?_
  cases pairs <;> exact holds_pure _

theorem holds_integer : Holds H bound (integer t) := by
  unfold integer
  split
  · exact holds_pure _
  · exact holds_bind (holds_complain _) fun _ => holds_pure _

theorem holds_operand? (hE : HoldsAll H bound E) {operand : Parser Node}
    (ho : operand? E t = some operand) : Holds H (bound + 1) operand := by
  unfold operand? at ho
  split at ho <;> cases ho
  case h_1 | h_3 | h_4 | h_5 => exact holds_pure _
  case h_2 => exact holds_integer
  case h_6 | h_7 =>
    exact holds_advance_bind (holds_bind (hE .prefixed) fun _ => holds_pure _)
  case h_8 =>
    refine holds_advance_bind (holds_bind (hE .lowest) fun _ => ?_)
    exact holds_demand fun _ => holds_pure _
  case h_9 => exact holds_conditional hE
  case h_10 => exact holds_function hE
  case h_11 => exact holds_array hE
  case h_12 => exact holds_hash hE

theorem holds_extend (hE : HoldsAll H bound E) (left : Node) :
    Holds H (bound + 1) (extend E left t) := by
  unfold extend
  split
  · refine holds_bind (holds_items hE (by decide)) fun arguments => ?_
    cases arguments <;> exact holds_pure _
  · refine holds_advance_bind (holds_bind (hE .lowest) fun _ => ?_)
    exact holds_demand fun _ => holds_pure _
  · exact holds_advance_bind (holds_bind (hE _) fun _ => holds_pure _)

theorem holds_climb (hE : HoldsAll H bound E) (level : Level) (left : Node) :
    Holds H (bound + 1) (climb E level left) := by
  refine holds_bind holds_upcoming fun token => ?_
  cases token with
  | none => exact holds_pure _
  | some token =>
    refine holds_ite (holds_bind holds_advance fun _ => ?_) (holds_pure _)
    exact holds_bind (holds_extend hE left) fun _ => holds_pure _

theorem shortens_climb (level : Level) (left : Node) (ts : List Token) :
    Shortens ts (climb E level left) ts := by
  refine shortens_bind fun r hr => ?_
  obtain rfl := Option.some.inj hr
  dsimp only
  split
  · exact shortens_inr _
  · next token htoken =>
    split
    · refine shortens_advance fun hnil => ?_
      rw [hnil] at htoken
      contradiction
    · exact shortens_inr _

/-! ### Expressions -/

/-- One expression over the parser for those further down. -/
def nested (E : Expressions) (level : Level) : Parser Node := do
  let token ← current
  match token.bind (operand? E) with
  | none =>
    complain (.noOperand token)
    return .missing
  | some operand =>
    let left ← operand
    iterate (climb E level) left

theorem expression_succ (depth : Nat) (level : Level) :
    expression (depth + 1) level = nested (expression depth) level := rfl

theorem holds_nested (hE : HoldsAll H bound E) (level : Level) :
    Holds H (bound + 1) (nested E level) := by
  refine holds_bind holds_current fun token => ?_
  split
  · exact holds_bind (holds_complain _) fun _ => holds_pure _
  · next operand ho =>
    obtain ⟨t, -, ho⟩ := Option.bind_eq_some_iff.mp ho
    refine holds_bind (holds_operand? hE ho) fun left => ?_
    exact holds_iterate (holds_climb hE level) (shortens_climb level) left

/-- Without a token there is a complaint, and nothing further down is read. -/
theorem nested_nil (E : Expressions) (level : Level) : H _ (nested E level) [] := by
  refine Compositional.of_bind (Compositional.of_current []) fun r hr => ?_
  obtain rfl := Option.some.inj hr
  exact holds_bind (holds_complain _) (fun _ => holds_pure _) [] (Nat.le_refl 0)

end Parse

end Monkey
