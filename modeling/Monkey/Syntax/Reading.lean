import Monkey.Syntax.Complaint

/-!
# Reading tokens

A parser takes the tokens in front of it and gives a reading: a value, the number of
tokens that it went over, and its complaints.  The first token that is left is the
current one; the one behind it is coming up.  The only way to change the tokens that are
left is to go over the current one, so every token is the current one once, in order.

A parser may also give up, when a text is nested more deeply than it is allowed to
follow.

## Main definitions

* `Reading`, `Parser` — what a parser gives, and parsers.
* `Parser.advance` — goes over the current token.
* `Parser.expect`, `Parser.demand` — want a kind of token to come up.
* `Parser.loop`, `Parser.iterate` — repeat a step until it has a result.

## Main results

* `Parser.iterate_of_inl`, `Parser.iterate_of_inr` — the two ways to unfold a loop.
-/

namespace Monkey

/-- What a parser gives. -/
structure Reading (α : Type) where
  value : α
  /-- How many tokens were gone over. -/
  count : Nat
  complaints : List Complaint
  deriving Repr

/-- A reading that goes on behind another one. -/
def Reading.followedBy {α β : Type} (r : Reading α) (q : Reading β) : Reading β :=
  ⟨q.value, r.count + q.count, r.complaints ++ q.complaints⟩

/-- Parsers: no reading means that the text is nested too deeply. -/
def Parser (α : Type) : Type :=
  List Token → Option (Reading α)

namespace Parser

variable {α β σ : Type}

/-- Reads nothing. -/
protected def pure (a : α) : Parser α := fun _ =>
  some ⟨a, 0, []⟩

/-- One parser after another: the second one reads what the first one leaves. -/
protected def bind (p : Parser α) (f : α → Parser β) : Parser β := fun ts =>
  match p ts with
  | none => none
  | some r => (f r.value (ts.drop r.count)).map r.followedBy

instance : Monad Parser where
  pure := Parser.pure
  bind := Parser.bind

/-- Gives up. -/
def tooDeep : Parser α := fun _ => none

/-- The current token.  At the end there is none. -/
def current : Parser (Option Token) := fun ts =>
  some ⟨ts.head?, 0, []⟩

/-- The token behind the current one. -/
def upcoming : Parser (Option Token) := fun ts =>
  some ⟨ts.tail.head?, 0, []⟩

/-- The kind of the token behind the current one. -/
def upcomingKind : Parser Token.Kind := do
  return Complaint.kindOf (← upcoming)

/-- Goes over the current token; at the end there is nothing to go over. -/
def advance : Parser Unit := fun ts =>
  some ⟨(), if ts.isEmpty then 0 else 1, []⟩

/-- Records a complaint. -/
def complain (c : Complaint) : Parser Unit := fun _ =>
  some ⟨(), 0, [c]⟩

/-- Moves on to a token of some kind, if one comes up; records a complaint
otherwise. -/
def expect (wanted : Token.Kind) : Parser (Option Token) := do
  let next ← upcoming
  if Complaint.kindOf next = wanted then
    advance
    return next
  else
    complain (.expected wanted next)
    return none

/-- Moves on to a token of some kind and reads on from there; gives `other` if no such
token comes up. -/
def demand (wanted : Token.Kind) (other : α) (p : Token → Parser α) : Parser α := do
  match ← expect wanted with
  | some t => p t
  | none => return other

/-- Repeats a step on some tokens until it has a result.  A step that goes on without
reading anything would be repeated for ever, and is given up. -/
def loop (step : σ → Parser (σ ⊕ α)) (s : σ) (ts : List Token) : Option (Reading α) :=
  match step s ts with
  | none => none
  | some ⟨.inr a, count, complaints⟩ => some ⟨a, count, complaints⟩
  | some ⟨.inl s', count, complaints⟩ =>
    if _h : ts ≠ [] ∧ 0 < count then
      (loop step s' (ts.drop count)).map (Reading.followedBy ⟨s', count, complaints⟩)
    else none
termination_by ts.length
decreasing_by
  have := List.length_pos_iff.mpr _h.1
  simp only [List.length_drop]
  omega

/-- The parser that repeats a step until it has a result. -/
def iterate (step : σ → Parser (σ ⊕ α)) (s : σ) : Parser α :=
  loop step s

/-! ### Unfolding -/

@[simp] theorem pure_apply (a : α) (ts : List Token) :
    (pure a : Parser α) ts = some ⟨a, 0, []⟩ := rfl

theorem bind_apply (p : Parser α) (f : α → Parser β) (ts : List Token) :
    (p >>= f) ts = match p ts with
      | none => none
      | some r => (f r.value (ts.drop r.count)).map r.followedBy := rfl

theorem iterate_apply (step : σ → Parser (σ ⊕ α)) (s : σ) (ts : List Token) :
    iterate step s ts = match step s ts with
      | none => none
      | some ⟨.inr a, count, complaints⟩ => some ⟨a, count, complaints⟩
      | some ⟨.inl s', count, complaints⟩ =>
        if ts ≠ [] ∧ 0 < count then
          (iterate step s' (ts.drop count)).map (Reading.followedBy ⟨s', count, complaints⟩)
        else none := by
  unfold iterate
  rw [loop]
  rfl

/-- A loop whose step has a result. -/
theorem iterate_of_inr {step : σ → Parser (σ ⊕ α)} {s : σ} {ts : List Token} {a : α}
    {count : Nat} {complaints : List Complaint}
    (h : step s ts = some ⟨.inr a, count, complaints⟩) :
    iterate step s ts = some ⟨a, count, complaints⟩ := by
  rw [iterate_apply, h]

/-- A loop whose step goes on. -/
theorem iterate_of_inl {step : σ → Parser (σ ⊕ α)} {s s' : σ} {ts : List Token}
    {count : Nat} {complaints : List Complaint}
    (h : step s ts = some ⟨.inl s', count, complaints⟩) (some_left : ts ≠ [])
    (pos : 0 < count) :
    iterate step s ts =
      (iterate step s' (ts.drop count)).map (Reading.followedBy ⟨s', count, complaints⟩) := by
  rw [iterate_apply, h]
  exact if_pos ⟨some_left, pos⟩

end Parser

end Monkey
