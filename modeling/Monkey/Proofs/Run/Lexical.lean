import Monkey.Proofs.Run.History

/-!
# Lexical scope

A scope leads to one that was made before it, and it leads there for good: this is so of every
store that arises, however closures and the scopes in which they are bound refer to each other.  So
the way from a scope outwards ends, and a name has the value that the nearest scope on that way
binds it to.

## Main definitions

* `Store.Ordered`, `Store.SameOuter` — scopes lead to older ones, and always to the same ones.
* `Store.Chain` — the way from a scope outwards.

## Main results

* `Store.Ordered.exists_chain` — the way outwards ends.
* `Store.Chain.lookup_eq` — a name is looked for on this way.
* `Store.scopes_are_lexical` — all of it, over every history.
-/

namespace Monkey

namespace Store

/-! ### Outer scopes -/

/-- Scopes lead to older ones. -/
def Ordered (s : Store) : Prop :=
  ∀ (i : ScopeId) (here : Scope), s.scopes[i]? = some here → ∀ o ∈ here.outer, o < i

/-- The scopes that there were in one store are there in another one, around each of them the same
scope. -/
def SameOuter (s t : Store) : Prop :=
  ∀ (i : ScopeId) (here : Scope), s.scopes[i]? = some here →
    ∃ now, t.scopes[i]? = some now ∧ now.outer = here.outer

variable {s t : Store} {i o : ScopeId} {is : List ScopeId} {here : Scope}

theorem ordered_empty : empty.Ordered :=
  fun _ _ h => nomatch h

theorem SameOuter.refl (s : Store) : s.SameOuter s :=
  fun _ here h => ⟨here, h, rfl⟩

theorem kept_ordered : Kept Ordered where
  bind _ _ _ h i now hnow o ho := by
    obtain ⟨old, hold, rfl | rfl⟩ := getElem?_bind hnow
    · exact h i now hold o ho
    · exact h i old hold o ho
  addScope {s outer} houter h i now hnow o ho := by
    rw [getElem?_scopes_addScope] at hnow
    split at hnow
    · next hi =>
      cases hnow
      exact hi ▸ houter o ho
    · exact h i now hnow o ho
  issue h := h
  print _ h := h

theorem kept_sameOuter (s : Store) : Kept (s.SameOuter ·) where
  bind {t _ v} name _ _ h i here hhere := by
    obtain ⟨now, hnow, heq⟩ := h i here hhere
    rw [getElem?_scopes_bind, hnow]
    split
    · exact ⟨now.set name v, rfl, heq⟩
    · exact ⟨now, rfl, heq⟩
  addScope {t outer} _ h i here hhere := by
    obtain ⟨now, hnow, heq⟩ := h i here hhere
    have hne : i ≠ t.scopes.size := Nat.ne_of_lt (Array.getElem?_eq_some_iff.mp hnow).1
    exact ⟨now, by rw [getElem?_scopes_addScope, if_neg hne, hnow], heq⟩
  issue h := h
  print _ h := h

theorem Arises.ordered (h : s.Arises) : s.Ordered :=
  Steps.kept h kept_ordered closed_empty ordered_empty

theorem Steps.sameOuter (h : s.Steps t) (hs : s.Closed .all) : s.SameOuter t :=
  h.kept (kept_sameOuter s) hs (.refl s)

/-! ### The way outwards -/

/-- The way from a scope outwards, up to one around which there is none. -/
inductive Chain (s : Store) : ScopeId → List ScopeId → Prop
  | outermost {i : ScopeId} {here : Scope} (there : s.scopes[i]? = some here)
      (ends : here.outer = none) : Chain s i [i]
  | inside {i o : ScopeId} {here : Scope} {is : List ScopeId} (there : s.scopes[i]? = some here)
      (leads : here.outer = some o) (further : Chain s o is) : Chain s i (i :: is)

/-- The way outwards ends. -/
theorem Ordered.exists_chain (h : s.Ordered) (hs : s.Closed .all) (hi : i < s.size) :
    ∃ is, s.Chain i is := by
  induction i using Nat.strongRecOn with
  | ind i ih =>
    have hthere : s.scopes[i]? = some s.scopes[i] := Array.getElem?_eq_getElem hi
    cases hout : s.scopes[i].outer with
    | none => exact ⟨[i], .outermost hthere hout⟩
    | some o =>
      have holder : o < i := h i _ hthere o hout
      obtain ⟨is, his⟩ := ih o holder (hs.outer ⟨rfl, hi⟩ hthere o hout).2
      exact ⟨i :: is, .inside hthere hout his⟩

/-- On the way outwards there is no scope that is younger. -/
theorem Chain.le (h : s.Ordered) (hc : s.Chain i is) : ∀ j ∈ is, j ≤ i := by
  induction hc with
  | outermost => exact fun j hj => Nat.le_of_eq (List.mem_singleton.mp hj)
  | inside there leads _ ih =>
    intro j hj
    rcases List.mem_cons.mp hj with rfl | hj
    · exact Nat.le_refl j
    · exact Nat.le_trans (ih j hj) (Nat.le_of_lt (h _ _ there _ leads))

/-- Each scope on the way outwards is older than those in front of it. -/
theorem Chain.pairwise (h : s.Ordered) (hc : s.Chain i is) : is.Pairwise (· > ·) := by
  induction hc with
  | outermost => exact List.pairwise_singleton _ _
  | inside there leads further ih =>
    refine List.pairwise_cons.mpr ⟨fun j hj => ?_, ih⟩
    exact Nat.lt_of_le_of_lt (further.le h j hj) (h _ _ there _ leads)

/-- A name is looked for on the way outwards. -/
theorem Chain.lookup_eq (h : s.Ordered) (hc : s.Chain i is) (name : String) :
    s.lookup i name = is.findSome? fun j => (s.bindings j).lookup name := by
  induction hc with
  | outermost there ends =>
    rw [lookup_of_there there, ends, List.findSome?_singleton, bindings_of_there there]
    exact Option.or_none
  | inside there leads further ih =>
    rw [lookup_of_there there, leads, Option.bind_some, if_pos (h _ _ there _ leads), ih,
      List.findSome?_cons, bindings_of_there there]
    split <;> next hname => rw [hname]; rfl

/-- The nearest binding counts. -/
theorem Chain.lookup_of_nearest (h : s.Ordered) {nearer further : List ScopeId} {j : ScopeId}
    {name : String} {v : Value} (hc : s.Chain i (nearer ++ j :: further))
    (hnearer : ∀ k ∈ nearer, (s.bindings k).lookup name = none)
    (hv : (s.bindings j).lookup name = some v) : s.lookup i name = some v := by
  rw [hc.lookup_eq h]
  exact List.findSome?_eq_some_iff.mpr ⟨nearer, j, further, rfl, hv, hnearer⟩

/-! ### Histories -/

section Results

variable {depth depth' : Nat} {text : String} {scope : ScopeId} {callee v : Value}
  {arguments : List Value}

/-- What comes of a text exists. -/
theorem Arises.existing_of_run (h : s.Arises) (hscope : scope < s.size)
    (hr : run depth text scope s = (.finished (some v), t)) : v.Existing t := by
  obtain ⟨ns, hns⟩ := eval_of_run hr
  exact Value.existing_iff.mpr (closed_of_eval (Node.within_all _) hscope h.closed hns)

/-- What comes of a call exists. -/
theorem Arises.existing_of_apply (h : s.Arises) (hcallee : callee.Existing s)
    (harguments : ∀ a ∈ arguments, a.Existing s)
    (hr : Evaluation.apply (Evaluation.eval depth) depth' callee arguments s = .ok v t) :
    v.Existing t := by
  obtain ⟨-, -, hv⟩ := Evaluation.closed_of_mirrors
    (Evaluation.mirrors_apply (Evaluation.mirrors_eval (.closed .all) depth) depth'
      (Value.existing_iff.mp hcallee) (Value.forall₂_like_of_existing harguments)) h.closed
  exact Value.existing_iff.mpr (hv v t hr)

end Results

/-- **Scopes are lexical.**  Whatever a host has done from the start, a scope leads to one that was
made before it, and will always lead there; the values that are bound exist, functions with the
scopes that they were made in, and so do the results of texts and calls.  Hence the way from a
scope outwards ends, over older and older scopes; a name has the value that the nearest one on this
way binds it to, and it has none exactly if no scope on this way binds it. -/
theorem scopes_are_lexical (h : s.Arises) :
    (∀ (i : ScopeId) (here : Scope), s.scopes[i]? = some here →
      (∀ o ∈ here.outer, o < i) ∧ ∀ b ∈ here.bindings, b.2.Existing s) ∧
    (∀ t, s.Steps t → s.SameOuter t ∧ ∀ v : Value, v.Existing s → v.Existing t) ∧
    (∀ depth text scope v t, scope < s.size →
      run depth text scope s = (.finished (some v), t) → v.Existing t) ∧
    (∀ depth depth' callee arguments v t, callee.Existing s → (∀ a ∈ arguments, a.Existing s) →
      Evaluation.apply (Evaluation.eval depth) depth' callee arguments s = .ok v t →
      v.Existing t) ∧
    ∀ i < s.size, (∃ is, s.Chain i is) ∧ ∀ is, s.Chain i is →
      is.Pairwise (· > ·) ∧ ∀ name,
      (∀ v, s.lookup i name = some v ↔ ∃ nearer here further, is = nearer ++ here :: further ∧
        (s.bindings here).lookup name = some v ∧
        ∀ j ∈ nearer, (s.bindings j).lookup name = none) ∧
      (s.lookup i name = none ↔ ∀ j ∈ is, (s.bindings j).lookup name = none) := by
  have hs := h.closed
  have hordered := h.ordered
  refine ⟨fun i here hthere => ⟨hordered i here hthere, fun b hb => ?_⟩, fun t ht => ?_,
    fun _ _ _ _ _ => h.existing_of_run, fun _ _ _ _ _ _ => h.existing_of_apply,
    fun i hi => ⟨hordered.exists_chain hs hi, fun is hc => ?_⟩⟩
  · have hi : i < s.size := (Array.getElem?_eq_some_iff.mp hthere).1
    exact Value.existing_iff.mpr (hs.bound ⟨rfl, hi⟩ hthere b hb)
  · exact ⟨ht.sameOuter hs, fun v hv => hv.mono (ht.closed hs).2⟩
  · refine ⟨hc.pairwise hordered, fun name => ⟨fun v => ?_, ?_⟩⟩
    · rw [hc.lookup_eq hordered]
      exact List.findSome?_eq_some_iff
    · rw [hc.lookup_eq hordered]
      exact List.findSome?_eq_none_iff

/-- A name is bound in a scope, and looked for from inside of another one; in that one a text is
run which binds it again, to a function that is made there. -/
theorem scopes_are_lexical_inside :
    let s := ((empty.addScope none).bind 0 "x" (.integer 3)).addScope (some 0)
    let t := (run 100 "let x = fn() { x }; x" 1 s).2
    s.Arises ∧ s.SameOuter t ∧ s.Chain 1 [1, 0] ∧
      s.lookup 1 "x" = some (.integer 3) ∧ s.lookup 1 "y" = none := by
  intro s t
  have hnumber : (Value.integer 3).Existing (empty.addScope none) :=
    Value.existing_iff.mpr (.integer trivial)
  have hfirst : (empty.addScope none).Arises := Relation.ReflTransGen.single .addScope
  have h : s.Arises := (hfirst.step (.bind "x" (by decide) hnumber)).step (.enclose (by decide))
  have hc : s.Chain 1 [1, 0] := .inside rfl rfl (.outermost rfl rfl)
  obtain ⟨-, hlater, -, -, hlookup⟩ := scopes_are_lexical h
  obtain ⟨-, hnames⟩ := (hlookup 1 (by decide)).2 _ hc
  have hrun : s.Steps t := Relation.ReflTransGen.single (.run 100 _ (by decide))
  have hnearer : ∀ j ∈ [1], (s.bindings j).lookup "x" = none := List.forall_mem_singleton.mpr rfl
  have hnone : ∀ j ∈ [1, 0], (s.bindings j).lookup "y" = none :=
    List.forall_mem_cons.mpr ⟨rfl, List.forall_mem_singleton.mpr rfl⟩
  exact ⟨h, (hlater t hrun).1, hc, ((hnames "x").1 _).mpr ⟨[1], 0, [], rfl, rfl, hnearer⟩,
    (hnames "y").2.mpr hnone⟩

end Store

end Monkey
