import Monkey.Proofs.Syntax.Phrase
import Monkey.Token.Brackets

/-!
# Brackets inside of phrases

A phrase closes all the brackets that it opens, with one exception: where the text ends inside of
a block, the brace of the block stays open, and so does every bracket around it.  A statement that
is not broken off in that way does not end with a semicolon, since that would stand behind it.

So the end of a text in which no bracket is open, and which ends with a semicolon, is the end of
a statement that has its semicolon.

## Main definitions

* `depthBehind` — how many brackets are open behind some tokens.
* `Balanced` — what a phrase may do with the brackets.

## Main results

* `Reads.balanced` — every phrase does.
-/

namespace Monkey

/-- How many brackets are open behind some tokens, if `depth` are open in front of them. -/
def depthBehind (depth : Nat) (ts : List Token) : Nat :=
  (ts.map Token.kind).foldl Token.Kind.depthAfter depth

@[simp] theorem depthBehind_nil (depth : Nat) : depthBehind depth [] = depth := rfl

@[simp] theorem depthBehind_cons (depth : Nat) (t : Token) (ts : List Token) :
    depthBehind depth (t :: ts) = depthBehind (t.kind.depthAfter depth) ts := rfl

namespace Token.Kind

theorem depthAfter_of_opens {kind : Kind} (h : kind.opens) (depth : Nat) :
    kind.depthAfter depth = depth + 1 :=
  if_pos h

theorem depthAfter_of_closes {kind : Kind} (h : kind.closes) (depth : Nat) :
    kind.depthAfter depth = depth - 1 := by
  cases kind <;> first | rfl | contradiction

/-- No bracket. -/
def Neutral (kind : Kind) : Prop := kind.opens = false ∧ kind.closes = false

instance (kind : Kind) : Decidable kind.Neutral :=
  inferInstanceAs (Decidable (_ ∧ _))

theorem Neutral.depthAfter {kind : Kind} (h : kind.Neutral) (depth : Nat) :
    kind.depthAfter depth = depth := by
  rw [Kind.depthAfter, h.1, h.2]
  rfl

end Token.Kind

namespace Phrase

/-! ### What may happen to brackets -/

/-- The token in front of `rest` is no semicolon. -/
def Ends (ts rest : List Token) : Prop := ∃ us t, ts = us ++ t :: rest ∧ t.kind ≠ .semicolon

/-- From `ts` to `rest` all brackets are closed that are opened, and the last token is no
semicolon if that is asked for; or else the text ends, and some bracket is still open. -/
def Balanced (bounded : Prop) (ts rest : List Token) : Prop :=
  rest <:+ ts ∧
    ((∀ depth, depthBehind depth ts = depthBehind depth rest) ∧ (bounded → Ends ts rest) ∨
      rest = [] ∧ ∀ depth, depth < depthBehind depth ts)

variable {b c : Prop} {t lb rb : Token} {ts mid rest : List Token}

theorem Ends.behind (h : Ends mid rest) (hs : mid <:+ ts) : Ends ts rest := by
  obtain ⟨us, t, rfl, ht⟩ := h
  obtain ⟨vs, rfl⟩ := hs
  exact ⟨vs ++ us, t, by rw [List.append_assoc], ht⟩

theorem balanced_self : Balanced False ts ts :=
  ⟨List.suffix_rfl, .inl ⟨fun _ => rfl, False.elim⟩⟩

theorem Balanced.weaken (h : Balanced c ts rest) (hb : b → c) : Balanced b ts rest :=
  ⟨h.1, h.2.imp_left fun h => ⟨h.1, fun hb' => h.2 (hb hb')⟩⟩

/-- A token that is neither a bracket nor a semicolon. -/
theorem balanced_single (ht : t.kind.Neutral) (hs : t.kind ≠ .semicolon) :
    Balanced b (t :: rest) rest := by
  refine ⟨List.suffix_cons t rest, .inl ⟨fun depth => ?_, fun _ => ⟨[], t, rfl, hs⟩⟩⟩
  rw [depthBehind_cons, ht.depthAfter]

/-- What is no bracket may stand in front. -/
theorem Balanced.cons (h : Balanced b ts rest) (ht : t.kind.Neutral) :
    Balanced b (t :: ts) rest := by
  have hsuffix : ts <:+ t :: ts := List.suffix_cons t ts
  refine ⟨h.1.trans hsuffix, ?_⟩
  simp only [depthBehind_cons, ht.depthAfter]
  exact h.2.imp_left fun h => ⟨h.1, fun hb => (h.2 hb).behind hsuffix⟩

/-- Two parts in a row: if the text ends in the first one, there is nothing left for the second
one. -/
theorem Balanced.append (first : Balanced b ts mid) (second : Balanced c mid rest) :
    Balanced c ts rest := by
  refine ⟨second.1.trans first.1, ?_⟩
  rcases first.2 with ⟨hfirst, -⟩ | ⟨rfl, hopen⟩
  · rcases second.2 with ⟨hsecond, hends⟩ | ⟨hnil, hopen⟩
    · refine .inl ⟨fun depth => ?_, fun hc => (hends hc).behind first.1⟩
      rw [hfirst, hsecond]
    · refine .inr ⟨hnil, fun depth => ?_⟩
      rw [hfirst]
      exact hopen depth
  · exact .inr ⟨List.suffix_nil.mp second.1, hopen⟩

/-- A part between brackets. -/
theorem Balanced.enclosed (h : Balanced b ts (rb :: rest)) (hl : lb.kind.opens)
    (hr : rb.kind.closes) : Balanced c (lb :: ts) rest := by
  have hsuffix : rb :: rest <:+ lb :: ts := h.1.trans (List.suffix_cons lb ts)
  have hne : rb.kind ≠ .semicolon := by
    intro hk
    rw [hk] at hr
    contradiction
  obtain ⟨us, hus⟩ := hsuffix
  refine ⟨(List.suffix_cons rb rest).trans ⟨us, hus⟩, ?_⟩
  rcases h.2 with ⟨heven, -⟩ | ⟨hnil, -⟩
  · refine .inl ⟨fun depth => ?_, fun _ => ⟨us, rb, hus.symm, hne⟩⟩
    rw [depthBehind_cons, Token.Kind.depthAfter_of_opens hl, heven, depthBehind_cons,
      Token.Kind.depthAfter_of_closes hr, Nat.add_sub_cancel]
  · contradiction

/-- A block that the end of the text closes. -/
theorem Balanced.unclosed (h : Balanced b ts []) (hl : lb.kind.opens) :
    Balanced c (lb :: ts) [] := by
  refine ⟨List.nil_suffix, .inr ⟨rfl, fun depth => ?_⟩⟩
  rw [depthBehind_cons, Token.Kind.depthAfter_of_opens hl]
  rcases h.2 with ⟨heven, -⟩ | ⟨-, hopen⟩
  · rw [heven]
    exact Nat.lt_succ_self depth
  · exact Nat.lt_of_succ_lt (hopen (depth + 1))

/-! ### Phrases -/

/-- The phrases that have a last token of their own. -/
def Bounded : Phrase → Prop
  | sentence _ | expression _ _ | primary _ | block _ | pair _ _ => True
  | _ => False

theorem neutral_of_isInfix {kind : Token.Kind} (h : Grammar.IsInfix kind) : kind.Neutral := by
  cases kind <;> revert h <;> decide

theorem neutral_of_isPrefix {kind : Token.Kind} (h : Grammar.IsPrefix kind) : kind.Neutral := by
  cases kind <;> revert h <;> decide

theorem neutral_of_kind {kind : Token.Kind} (h : t.kind = kind) (hk : kind.Neutral) :
    t.kind.Neutral := h ▸ hk

theorem opens_of_kind {kind : Token.Kind} (h : t.kind = kind) (hk : kind.opens) : t.kind.opens :=
  h ▸ hk

theorem closes_of_kind {kind : Token.Kind} (h : t.kind = kind) (hk : kind.closes) :
    t.kind.closes := h ▸ hk

/-- **Brackets inside of phrases.**  A phrase closes all the brackets that it opens, unless the
text ends inside of a block. -/
theorem Reads.balanced {p : Phrase} (h : Reads p ts rest) : Balanced (Bounded p) ts rest := by
  induction h with
  | none | noItem | lastItem | noParameter | lastParameter | noPair => exact balanced_self
  | ended _ hs _ ih ih' => exact ih.append (ih'.cons (neutral_of_kind hs (by decide)))
  | unended _ _ _ ih ih' | someItems _ _ ih ih' => exact ih.append ih'
  | letSentence hw hn hs _ ih =>
    exact ((ih.cons (neutral_of_kind hs (by decide))).cons (neutral_of_kind hn (by decide))).cons
      (neutral_of_kind hw (by decide))
  | returnSentence hw _ ih => exact ih.cons (neutral_of_kind hw (by decide))
  | expressionSentence _ ih | simple _ ih => exact ih
  | infixed _ _ operator _ ih ih' => exact ih.append (ih'.cons (neutral_of_isInfix operator))
  | prefixed _ operator _ ih => exact ih.cons (neutral_of_isPrefix operator)
  | call _ hl _ hr ih ih' | index _ hl _ hr ih ih' =>
    exact ih.append (ih'.enclosed (opens_of_kind hl rfl) (closes_of_kind hr rfl))
  | identifier h | string h | true h | false h | integer h =>
    exact balanced_single (neutral_of_kind h (by decide)) (by rw [h]; decide)
  | grouped hl _ hr ih | array hl _ hr ih | hash hl _ hr ih | closed hl _ hr ih =>
    exact ih.enclosed (opens_of_kind hl rfl) (closes_of_kind hr rfl)
  | conditional hw hl _ hr _ ih ih' | function hw hl _ hr _ ih ih' =>
    have inner := ih.enclosed (c := False) (opens_of_kind hl rfl) (closes_of_kind hr rfl)
    exact (inner.append ih').cons (neutral_of_kind hw (by decide))
  | alternative hw hl _ hr _ ho _ ih ih' ih'' =>
    have inner := ih.enclosed (c := False) (opens_of_kind hl rfl) (closes_of_kind hr rfl)
    have blocks := ih'.append (ih''.cons (neutral_of_kind ho (by decide)))
    exact (inner.append blocks).cons (neutral_of_kind hw (by decide))
  | nextItem hc _ _ ih ih' => exact (ih.append ih').cons (neutral_of_kind hc (by decide))
  | unclosed hl _ ih => exact ih.unclosed (opens_of_kind hl rfl)
  | someParameters hn _ ih => exact ih.cons (neutral_of_kind hn (by decide))
  | nextParameter hc hn _ ih =>
    exact (ih.cons (neutral_of_kind hn (by decide))).cons (neutral_of_kind hc (by decide))
  | lastPair _ ih => exact ih.weaken False.elim
  | nextPair _ hc _ ih ih' => exact ih.append (ih'.cons (neutral_of_kind hc (by decide)))
  | pair _ hc _ ih ih' => exact ih.append (ih'.cons (neutral_of_kind hc (by decide)))

/-- What stands behind the token that follows a phrase ends the row. -/
theorem Reads.suffix {p : Phrase} (h : Reads p ts (t :: rest)) : rest <:+ ts :=
  (List.suffix_cons t rest).trans h.balanced.1

end Phrase

end Monkey
