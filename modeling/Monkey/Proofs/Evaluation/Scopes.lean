import Monkey.Proofs.Evaluation.Frame
import Monkey.Proofs.Evaluation.Mirror

/-!
# Scopes that are alike

Two scopes are alike if they bind values that are alike under the same names, and if the scopes
around them are linked.  A name that is looked for in scopes that are alike leads to values that
are alike, if it does so in the scopes around them.  Scopes stay alike when a name is bound in
both of them, and when scopes are added to their stores.

## Main definitions

* `ScopesAlike` — what two scopes have in common.

## Main results

* `Store.lookup_alike` — a name that is looked for in scopes that are alike.
* `Store.bind_alike`, `Store.addScope_alike` — scopes stay alike.
-/

namespace Monkey

theorem rel_or {α β : Type} {A : α → β → Prop} {o p : Option α} {o' p' : Option β}
    (h : Option.Rel A o o') (h' : Option.Rel A p p') : Option.Rel A (o.or p) (o'.or p') := by
  cases h with
  | some h => exact .some h
  | none => exact h'

/-- Two scopes bind values that are alike under every name, and lead to linked scopes. -/
structure ScopesAlike (R : Links) (c c' : Scope) : Prop where
  bindings : ∀ name,
    Option.Rel (Value.Like .all R) (c.bindings.lookup name) (c'.bindings.lookup name)
  outer : Option.Rel R.scope c.outer c'.outer

theorem ScopesAlike.set {R : Links} {v w : Value} {c c' : Scope} (h : ScopesAlike R c c')
    (name : String) (hv : v.Like .all R w) : ScopesAlike R (c.set name v) (c'.set name w) := by
  refine ⟨fun other => ?_, h.outer⟩
  rw [Scope.set, Scope.set, Scope.lookup_put, Scope.lookup_put]
  split
  · exact .some hv
  · exact h.bindings other

namespace Store

/-! ### Scopes of a store -/

section

variable {s : Store} {scope i : Nat} {name : String}

theorem size_bind (s : Store) (scope : ScopeId) (name : String) (v : Value) :
    (s.bind scope name v).size = s.size := Array.size_modify

theorem size_addScope (s : Store) (outer : Option ScopeId) :
    (s.addScope outer).size = s.size + 1 := Array.size_push _

theorem getElem?_scopes_bind (v : Value) :
    (s.bind scope name v).scopes[i]? =
      if scope = i then (s.scopes[i]?).map (·.set name v) else s.scopes[i]? :=
  Array.getElem?_modify

theorem getElem?_scopes_addScope (outer : Option ScopeId) :
    (s.addScope outer).scopes[i]? =
      if i = s.scopes.size then some ⟨[], outer⟩ else s.scopes[i]? :=
  Array.getElem?_push

/-- A name is looked for in a scope, and then in the one around it. -/
theorem lookup_of_there {c : Scope} (h : s.scopes[i]? = some c) :
    s.lookup i name = (c.bindings.lookup name).or
      (c.outer.bind fun o => if o < i then s.lookup o name else none) := by
  rw [lookup, h]
  dsimp only
  cases c.bindings.lookup name with
  | some v => rfl
  | none => cases c.outer <;> rfl

theorem bindings_of_there {c : Scope} (h : s.scopes[i]? = some c) : s.bindings i = c.bindings := by
  rw [bindings, h]
  rfl

theorem lookup_of_not_there (h : s.scopes[i]? = none) : s.lookup i name = none := by
  rw [lookup, h]

end

/-! ### Scopes of two stores -/

section

variable {R : Links} {s s' : Store} {i j a b : Nat}

/-- A name that is looked for in scopes that are alike leads to values that are alike, if scopes
that are linked are older on both sides or on none, and if it does so in those that are older. -/
theorem lookup_alike (name : String) (h : Option.Rel (ScopesAlike R) s.scopes[i]? s'.scopes[j]?)
    (hold : ∀ a b, R.scope a b → (a < i ↔ b < j))
    (hbefore : ∀ a b, R.scope a b → a < i →
      Option.Rel (Value.Like .all R) (s.lookup a name) (s'.lookup b name)) :
    Option.Rel (Value.Like .all R) (s.lookup i name) (s'.lookup j name) := by
  generalize hc : s.scopes[i]? = o, hc' : s'.scopes[j]? = o' at h
  cases h with
  | none =>
    rw [lookup_of_not_there hc, lookup_of_not_there hc']
    exact .none
  | @some c c' halike =>
    rw [lookup_of_there hc, lookup_of_there hc']
    refine rel_or (halike.bindings name) ?_
    have houter := halike.outer
    generalize c.outer = u, c'.outer = u' at houter
    cases houter with
    | none => exact .none
    | @some a b hab =>
      simp only [Option.bind_some]
      by_cases hlt : a < i
      · rw [if_pos hlt, if_pos ((hold a b hab).mp hlt)]
        exact hbefore a b hab hlt
      · rw [if_neg hlt, if_neg (mt (hold a b hab).mpr hlt)]
        exact .none

/-- Scopes stay alike when a name is bound in both of them, or in none. -/
theorem bind_alike (name : String) {v w : Value} (hv : v.Like .all R w)
    (h : Option.Rel (ScopesAlike R) s.scopes[i]? s'.scopes[j]?) (hboth : a = i ↔ b = j) :
    Option.Rel (ScopesAlike R) (s.bind a name v).scopes[i]? (s'.bind b name w).scopes[j]? := by
  rw [getElem?_scopes_bind, getElem?_scopes_bind]
  by_cases ha : a = i
  · rw [if_pos ha, if_pos (hboth.mp ha)]
    generalize s.scopes[i]? = o, s'.scopes[j]? = o' at h
    cases h with
    | none => exact .none
    | some halike => exact .some (halike.set name hv)
  · rw [if_neg ha, if_neg (mt hboth.mpr ha)]
    exact h

/-- Scopes stay alike when both of them are new, or none is. -/
theorem addScope_alike {o o' : Option ScopeId} (houter : Option.Rel R.scope o o')
    (h : Option.Rel (ScopesAlike R) s.scopes[i]? s'.scopes[j]?)
    (hboth : i = s.scopes.size ↔ j = s'.scopes.size) :
    Option.Rel (ScopesAlike R) (s.addScope o).scopes[i]? (s'.addScope o').scopes[j]? := by
  rw [getElem?_scopes_addScope, getElem?_scopes_addScope]
  by_cases hi : i = s.scopes.size
  · rw [if_pos hi, if_pos (hboth.mp hi)]
    exact .some ⟨fun _ => .none, houter⟩
  · rw [if_neg hi, if_neg (mt hboth.mpr hi)]
    exact h

end

end Store

end Monkey
