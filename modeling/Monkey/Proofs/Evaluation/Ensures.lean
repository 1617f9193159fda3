import Monkey.Evaluation.Eval

/-!
# What an evaluation ensures

A statement about an evaluation names an invariant of stores, the stops that may come about, and
what holds of the result.  The rules follow the ways in which evaluations are put together, and so
do those for the parts of constructs.

## Main definitions

* `Evaluation.Ensures` — what an evaluation ensures from every store of an invariant.

## Main results

* `Evaluation.Ensures.bind` — two evaluations in a row.
* `Evaluation.ensures_operand` — a part whose value is gone on with unless it is a signal.
-/

namespace Monkey.Evaluation

variable {α β : Type} {I : Store → Prop} {S S' : Stop → Prop} {P : α → Prop} {Q : β → Prop}

/-- From a store of `I` the evaluation gives a result of `Q` and a store of `I`, or it stops for a
cause of `S`. -/
def Ensures (I : Store → Prop) (S : Stop → Prop) (Q : α → Prop) (e : Evaluation α) : Prop :=
  ∀ s, I s → match e s with
    | .ok a t => I t ∧ Q a
    | .error why _ => S why

/-! ### Combinators -/

theorem Ensures.pure {a : α} (h : P a) : Ensures I S P (Pure.pure a) :=
  fun _ hs => ⟨hs, h⟩

theorem Ensures.throw {why : Stop} (h : S why) : Ensures I S P (throw why) :=
  fun _ _ => h

theorem Ensures.mono {P' : α → Prop} {e : Evaluation α} (h : Ensures I S P e)
    (hS : ∀ why, S why → S' why) (hP : ∀ a, P a → P' a) : Ensures I S' P' e := by
  intro s hs
  have h := h s hs
  split at h
  · exact ⟨h.1, hP _ h.2⟩
  · exact hS _ h

theorem Ensures.bind {e : Evaluation α} {k : α → Evaluation β} (h : Ensures I S P e)
    (hk : ∀ a, P a → Ensures I S Q (k a)) : Ensures I S Q (e >>= k) := by
  intro s hs
  have h := h s hs
  simp only [Bind.bind, EStateM.bind]
  cases hr : e s with
  | ok a t =>
    rw [hr] at h
    exact hk a h.2 t h.1
  | error why t =>
    rw [hr] at h
    exact h

theorem Ensures.map {e : Evaluation α} (f : α → β) (h : Ensures I S (fun a => Q (f a)) e) :
    Ensures I S Q (f <$> e) := by
  intro s hs
  have h := h s hs
  simp only [Functor.map, EStateM.map]
  cases hr : e s with
  | ok a t =>
    rw [hr] at h
    exact h
  | error why t =>
    rw [hr] at h
    exact h

theorem Ensures.ite {c : Prop} [Decidable c] {e e' : Evaluation α} (h : c → Ensures I S P e)
    (h' : ¬ c → Ensures I S P e') : Ensures I S P (if c then e else e') := by
  split
  · exact h ‹_›
  · exact h' ‹_›

theorem Ensures.modify {f : Store → Store} (hf : ∀ s, I s → I (f s)) :
    Ensures I S (fun _ => True) (modify f) :=
  fun s hs => ⟨hf s hs, trivial⟩

/-- What goes on with the store, whatever of the invariant it is. -/
theorem Ensures.get_bind {k : Store → Evaluation β} (h : ∀ s, I s → Ensures I S Q (k s)) :
    Ensures I S Q (get >>= k) :=
  fun s hs => h s hs s hs

theorem ensures_issue (hI : ∀ s, I s → I s.issue) : Ensures I S (fun _ => True) issue :=
  fun s hs => ⟨hI s hs, trivial⟩

theorem ensures_raise {P : Value → Prop} {fault : Fault} (hI : ∀ s, I s → I s.issue)
    (h : ∀ id, P (.error id fault)) : Ensures I S P (raise fault) :=
  (ensures_issue hI).bind fun id _ => .pure (h id)

theorem ensures_settle {P : Value → Prop} {r : Except Fault Value} (hI : ∀ s, I s → I s.issue)
    (hok : ∀ v, r = .ok v → P v) (herror : ∀ fault, r = .error fault → ∀ id, P (.error id fault)) :
    Ensures I S P (settle r) := by
  cases r with
  | ok v => exact .pure (hok v rfl)
  | error fault => exact ensures_raise hI (herror fault rfl)

/-! ### Parts of constructs -/

section

variable {eval : Evaluator} {scope : ScopeId} {P : Value → Prop} {Q : Option Value → Prop}

theorem ensures_value {n : Node} (h : Ensures I S (fun o => P (o.getD .null)) (eval n scope)) :
    Ensures I S P (value eval n scope) :=
  h.bind fun _ ho => .pure ho

theorem ensures_operand {n : Node} {k : Value → Evaluation (Option Value)}
    (h : Ensures I S P (value eval n scope)) (signal : ∀ v, P v → v.isSignal → Q (some v))
    (hk : ∀ v, P v → v.isSignal = false → Ensures I S Q (k v)) :
    Ensures I S Q (operand eval n scope k) := by
  refine h.bind fun v hv => .ite (fun hsig => .pure (signal v hv hsig)) fun hsig => ?_
  exact hk v hv (Bool.eq_false_iff.mpr hsig)

end

end Monkey.Evaluation
