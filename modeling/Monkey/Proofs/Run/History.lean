import Mathlib.Logic.Relation
import Monkey.Proofs.Evaluation.Existing

/-!
# Histories of stores

A host makes scopes and objects, binds names, runs texts and calls functions, in any order, with
whatever exists by then.  A store arises if it is behind such a history that began with the empty
store.

Whatever the host does is one of five things, and all but one of them are single changes to the
store: the last one is an evaluation, and it mirrors itself whatever the mirror.  So every store
that arises is closed, and what evaluations keep is kept by histories.  In turn an evaluation does
nothing to a store that a host could not do, so that the stores in the middle of a run arise too.

## Main definitions

* `Store.Step`, `Store.Steps` — what a host may do, once and any number of times.
* `Store.Arises` — stores behind a history.

## Main results

* `Store.Step.shapes` — the five things.
* `Store.Arises.closed` — stores that arise are closed.
* `Store.Steps.kept` — what histories keep.
* `Store.arises_of_ok` — a store behind an evaluation.
-/

namespace Monkey

/-- What a host may do with a store.  What it hands over has to exist: a value of its own making
has the identities that it was given. -/
inductive Store.Step (s : Store) : Store → Prop
  /-- A scope around which there is none. -/
  | addScope : Step s (s.addScope none)
  /-- A scope inside of another one. -/
  | enclose {outer : ScopeId} (there : outer < s.size) : Step s (s.addScope (some outer))
  /-- The scope of a call, with the parameters bound. -/
  | enter {id : Identity} {parameters : List Node} {body : Node} {closure : ScopeId}
      {arguments : List Value} (callee : (Value.function id parameters body closure).Existing s)
      (existing : ∀ v ∈ arguments, v.Existing s) :
      Step s ((Evaluation.enter closure parameters arguments).after s)
  | bind {scope : ScopeId} (name : String) {v : Value} (there : scope < s.size)
      (existing : v.Existing s) : Step s (s.bind scope name v)
  | run (depth : Nat) (text : String) {scope : ScopeId} (there : scope < s.size) :
      Step s (run depth text scope s).2
  | apply (depth depth' : Nat) {callee : Value} {arguments : List Value}
      (function : callee.Existing s) (existing : ∀ v ∈ arguments, v.Existing s) :
      Step s ((Evaluation.apply (Evaluation.eval depth) depth' callee arguments).after s)
  /-- An object of the host's own making. -/
  | issue : Step s s.issue
  | print (line : String) : Step s (s.print line)

namespace Store

/-- Any number of things that a host does, one after another. -/
abbrev Steps : Store → Store → Prop := Relation.ReflTransGen Step

/-- A store is behind what a host has done from the start. -/
def Arises (s : Store) : Prop := empty.Steps s

variable {s t : Store}

theorem Arises.step (h : s.Arises) (ht : s.Step t) : t.Arises :=
  Relation.ReflTransGen.tail h ht

open Evaluation in
/-- The five things that a host does: it adds a scope, binds a name, gives out an identity, prints
a line, or evaluates something that mirrors itself. -/
theorem Step.shapes (h : s.Step t) :
    (∃ outer : Option ScopeId, (∀ o ∈ outer, o < s.size) ∧ t = s.addScope outer) ∨
    (∃ scope name v, scope < s.size ∧ v.Existing s ∧ t = s.bind scope name v) ∨
    t = s.issue ∨ (∃ line, t = s.print line) ∨
    ∃ (α : Type) (Q : Links → α → α → Prop) (e : Evaluation α),
      t = e.after s ∧ ∀ M : Mirror .all, Mirrors M (.given s) Q e e := by
  cases h with
  | addScope => exact .inl ⟨none, nofun, rfl⟩
  | enclose there => exact .inl ⟨_, fun o ho => Option.some.inj ho ▸ there, rfl⟩
  | bind name there existing => exact .inr (.inl ⟨_, name, _, there, existing, rfl⟩)
  | issue => exact .inr (.inr (.inl rfl))
  | print line => exact .inr (.inr (.inr (.inl ⟨line, rfl⟩)))
  | enter callee existing =>
    have hclosure := (callee _ .self).2 _ rfl
    refine .inr (.inr (.inr (.inr ⟨_, fun R a b => R.scope a b, _, rfl, fun M => ?_⟩)))
    exact mirrors_enter (Links.given_scope hclosure) _ (Value.forall₂_like_of_existing existing)
  | apply depth depth' function existing =>
    refine .inr (.inr (.inr (.inr ⟨_, Value.Like .all, _, rfl, fun M => ?_⟩)))
    exact mirrors_apply (mirrors_eval M depth) depth' (Value.existing_iff.mp function)
      (Value.forall₂_like_of_existing existing)
  | @run depth text scope there =>
    rcases snd_run depth text scope s with heq | ⟨p, -, -, heq⟩
    · -- a text that is refused leaves the store as it was
      refine .inr (.inr (.inr (.inr ⟨_, fun _ _ _ => True, pure (), heq, fun M => ?_⟩)))
      exact .pure fun _ _ => trivial
    · refine .inr (.inr (.inr (.inr ⟨_, LikeResult .all, _, heq, fun M => ?_⟩)))
      exact mirrors_eval M depth _ p.program scope scope p.program.within_all
        (Links.given_scope there)

/-! ### Closed stores -/

/-- A step keeps a store closed, and takes nothing back. -/
theorem Step.closed (h : s.Step t) (hs : s.Closed .all) :
    t.Closed .all ∧ Links.given s ≤ .given t := by
  rcases h.shapes with ⟨outer, houter, rfl⟩ | ⟨scope, name, v, -, hv, rfl⟩ | rfl | ⟨line, rfl⟩ |
    ⟨α, Q, e, rfl, he⟩
  · exact ⟨Closed.addScope hs houter, s.given_le_addScope _⟩
  · rw [Closed, Links.given_bind]
    exact ⟨Within.bind hs scope name (Value.existing_iff.mp hv), le_rfl⟩
  · have hle : Links.given s ≤ .given s.issue := Links.given_le (Nat.le_succ _) (Nat.le_refl _)
    exact ⟨Within.grow hs hle rfl fun _ hi => hi, hle⟩
  · exact ⟨Within.grow hs le_rfl rfl fun _ hi => hi, le_rfl⟩
  · obtain ⟨hclosed, ⟨hnext, hsize⟩, -⟩ := Evaluation.closed_of_mirrors (he (.closed .all)) hs
    exact ⟨hclosed, Links.given_le hnext hsize⟩

theorem Steps.closed (h : s.Steps t) (hs : s.Closed .all) :
    t.Closed .all ∧ Links.given s ≤ .given t := by
  induction h with
  | refl => exact ⟨hs, le_rfl⟩
  | tail _ last ih =>
    obtain ⟨hclosed, hle⟩ := last.closed ih.1
    exact ⟨hclosed, ih.2.trans hle⟩

/-- **Stores that arise are closed.** -/
theorem Arises.closed (h : s.Arises) : s.Closed .all :=
  (Steps.closed h closed_empty).1

/-! ### What is kept -/

variable {I : Store → Prop}

theorem Step.kept (h : s.Step t) (hI : Kept I) (hs : s.Closed .all) (hi : I s) : I t := by
  rcases h.shapes with ⟨outer, houter, rfl⟩ | ⟨scope, name, v, hscope, hv, rfl⟩ | rfl |
    ⟨line, rfl⟩ | ⟨α, Q, e, rfl, he⟩
  · exact hI.addScope houter hi
  · exact hI.bind name hscope hv hi
  · exact hI.issue hi
  · exact hI.print line hi
  · exact Evaluation.kept_of_mirrors hI (he _) hs hi

/-- **Histories keep what evaluations keep.** -/
theorem Steps.kept (h : s.Steps t) (hI : Kept I) (hs : s.Closed .all) (hi : I s) : I t := by
  induction h with
  | refl => exact hi
  | tail before last ih => exact last.kept hI (Steps.closed before hs).1 ih

/-! ### Evaluations -/

/-- Whatever an evaluation does to a store, a host could do as well. -/
theorem kept_arises : Kept Arises where
  bind name hscope hv h := h.step (.bind name hscope hv)
  addScope {s outer} houter h := by
    cases outer with
    | none => exact h.step .addScope
    | some o => exact h.step (.enclose (houter o rfl))
  issue h := h.step .issue
  print line h := h.step (.print line)

/-- A store behind an evaluation that gives a result. -/
theorem arises_of_ok {α : Type} {Q : Links → α → α → Prop} {e : Evaluation α} {a : α}
    (he : ∀ M : Mirror .all, Evaluation.Mirrors M (.given s) Q e e) (hs : s.Arises)
    (h : e s = .ok a t) : t.Arises ∧ Links.given s ≤ .given t ∧ Q (.given t) a a := by
  have hafter := Evaluation.kept_of_mirrors kept_arises (he _) hs.closed hs
  obtain ⟨-, ⟨hnext, hsize⟩, hresult⟩ := Evaluation.closed_of_mirrors (he _) hs.closed
  rw [Evaluation.after, h] at hafter hnext hsize
  exact ⟨hafter, Links.given_le hnext hsize, hresult a t h⟩

end Store

end Monkey
