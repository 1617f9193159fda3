import Monkey.Proofs.Evaluation.Scopes
import Monkey.Run

/-!
# A store that is ahead of another one

Scopes are never removed, so a store may hold scopes that nothing leads to any more, and it has
given out identities that nothing has any more.  Another store may have neither.  If the scopes
that came later in the one are alike to all scopes of the other one, then a text that is run in
both comes to the same: numbers of scopes and identities are all that differs, and they differ by
what the one store is ahead.

## Main definitions

* `Links.ahead`, `Store.Ahead` — one store is ahead by some identities and scopes.
* `Outcome.Like` — outcomes that differ only by what is linked.

## Main results

* `Store.Ahead.lookup` — a name leads to values that are alike in both stores.
* `Mirror.run` — a text that is run in stores that mirror each other.
* `Store.Ahead.run` — a text that is run in a store that is ahead.
-/

namespace Monkey

/-- Each identity stands for the one that is less by `k`, and each scope for the one that is less
by `m`. -/
def Links.ahead (k m : Nat) : Links where
  identity i j := i = k + j
  scope a b := a = m + b
  identity_iff := by
    rintro _ j _ j' rfl rfl
    exact Nat.add_left_cancel_iff

/-! ### Stores -/

/-- One store has given out `k` identities and `m` scopes before another one gave out any, and
from then on the scopes are alike. -/
structure Store.Ahead (k m : Nat) (s s' : Store) : Prop where
  next : s.next = k + s'.next
  size : s.size = m + s'.size
  printed : s.printed = s'.printed
  scopes : ∀ i, Option.Rel (ScopesAlike (.ahead k m)) s.scopes[m + i]? s'.scopes[i]?

namespace Store.Ahead

variable {k m : Nat} {s s' : Store}

/-- What was printed is forgotten in both stores. -/
theorem clearPrinted (h : s.Ahead k m s') : s.clearPrinted.Ahead k m s'.clearPrinted :=
  ⟨h.next, h.size, rfl, h.scopes⟩

/-- A store with a new scope around which there is none, and a store with nothing else. -/
theorem start (s : Store) (hs : s.printed = "") :
    (s.addScope none).Ahead s.next s.size (empty.addScope none) := by
  refine ⟨rfl, s.size_addScope none, hs, fun i => ?_⟩
  refine addScope_alike .none ?_ ?_
  · have hnone : s.scopes[s.size + i]? = none := Array.getElem?_eq_none (Nat.le_add_right _ i)
    rw [hnone]
    exact .none
  · exact Nat.add_eq_left

/-- A name leads to values that are alike in both stores, or to none. -/
theorem lookup (h : s.Ahead k m s') (name : String) (i : Nat) :
    Option.Rel (Value.Like .all (.ahead k m)) (s.lookup (m + i) name) (s'.lookup i name) := by
  induction i using Nat.strongRecOn with
  | ind i ih =>
    refine lookup_alike name (h.scopes i) ?_ ?_
    · rintro _ b rfl
      exact Nat.add_lt_add_iff_left
    · rintro _ b rfl hlt
      exact ih b (Nat.lt_of_add_lt_add_left hlt)

theorem bind (h : s.Ahead k m s') (i : Nat) (name : String) {v w : Value}
    (hv : v.Like .all (.ahead k m) w) :
    (s.bind (m + i) name v).Ahead k m (s'.bind i name w) := by
  refine ⟨h.next, ?_, h.printed, fun j => ?_⟩
  · rw [size_bind, size_bind]
    exact h.size
  · exact bind_alike name hv (h.scopes j) Nat.add_left_cancel_iff

theorem addScope (h : s.Ahead k m s') {o o' : Option ScopeId}
    (houter : Option.Rel (Links.ahead k m).scope o o') :
    (s.addScope o).Ahead k m (s'.addScope o') := by
  refine ⟨h.next, ?_, h.printed, fun j => ?_⟩
  · rw [size_addScope, size_addScope, h.size, Nat.add_assoc]
  · refine addScope_alike houter (h.scopes j) ?_
    have hsize : s.scopes.size = m + s'.scopes.size := h.size
    rw [hsize]
    exact Nat.add_left_cancel_iff

end Store.Ahead

/-- **A store that is ahead of another one mirrors it.** -/
def Mirror.ahead (k m : Nat) : Mirror .all where
  Related R s s' := R = .ahead k m ∧ s.Ahead k m s'
  lookup := by
    rintro R s s' _ b name ⟨rfl, h⟩ rfl -
    exact h.lookup name b
  bind := by
    rintro R s s' _ b v w name ⟨rfl, h⟩ rfl hv
    exact ⟨rfl, h.bind b name hv⟩
  addScope := by
    rintro R s s' _ b ⟨rfl, h⟩ rfl
    exact ⟨_, le_rfl, h.size, rfl, h.addScope (.some rfl)⟩
  issue := by
    rintro R s s' ⟨rfl, h⟩
    exact ⟨_, le_rfl, h.next, rfl, { h with next := congrArg (· + 1) h.next }⟩
  print := by
    rintro R s s' line ⟨rfl, h⟩
    exact ⟨rfl, { h with printed := congrArg (· ++ line ++ "\n") h.printed }⟩

/-! ### Texts that are run -/

/-- Two outcomes differ only by what is linked. -/
inductive Outcome.Like (R : Links) : Outcome → Outcome → Prop
  | refused (complaints : List Complaint) : Like R (.refused complaints) (.refused complaints)
  | stopped (why : Stop) : Like R (.stopped why) (.stopped why)
  | finished {o o' : Option Value} (results : Option.Rel (Value.Like .all R) o o') :
      Like R (.finished o) (.finished o')

/-- A text that is run in linked scopes of stores that mirror each other has outcomes that are
alike, and the stores mirror each other again. -/
theorem Mirror.run (M : Mirror .all) {R : Links} {s s' : Store} {a b : ScopeId}
    (related : M.Related R s s') (linked : R.scope a b) (depth : Nat) (text : String) :
    ∃ R', R ≤ R' ∧
      (Monkey.run depth text a s).1.Like R' (Monkey.run depth text b s').1 ∧
      M.Related R' (Monkey.run depth text a s).2 (Monkey.run depth text b s').2 := by
  unfold Monkey.run
  split
  · exact ⟨R, le_rfl, .stopped .tooDeep, related⟩
  · next p _ =>
    split
    · -- the same tree is evaluated in both stores
      have hends := Evaluation.mirrors_eval M depth R p.program a b (Node.within_all p.program)
        linked le_rfl related
      unfold Evaluation.outcome
      generalize Evaluation.eval depth p.program a s = r,
        Evaluation.eval depth p.program b s' = r' at hends
      cases hends with
      | ok grown related results => exact ⟨_, grown, .finished results, related⟩
      | error grown related => exact ⟨_, grown, .stopped _, related⟩
    · exact ⟨R, le_rfl, .refused p.complaints, related⟩

/-- **A text that is run does not tell how far a store is ahead.** -/
theorem Store.Ahead.run {k m : Nat} {s s' : Store} (h : s.Ahead k m s') (depth : Nat)
    (text : String) (scope : ScopeId) :
    (Monkey.run depth text (m + scope) s).1.Like (.ahead k m)
        (Monkey.run depth text scope s').1 ∧
      (Monkey.run depth text (m + scope) s).2.Ahead k m (Monkey.run depth text scope s').2 := by
  have hlinked : (Links.ahead k m).scope (m + scope) scope := rfl
  obtain ⟨R', -, houtcome, rfl, hstore⟩ :=
    (Mirror.ahead k m).run ⟨rfl, h⟩ hlinked depth text
  exact ⟨houtcome, hstore⟩

end Monkey
