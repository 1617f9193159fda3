import Monkey.Proofs.Evaluation.Contained
import Monkey.Proofs.Evaluation.Scopes
import Monkey.Proofs.Value.Entries

/-!
# Closed stores

A value names identities and scopes by their numbers, so it could name some that were never given
out.  No run ever does: every identity in a store was given out before, and every function was
made in a scope that is there.  Such a store is closed.

A store is closed if it mirrors itself, with all that was given out linked to itself; so closed
stores are the plainest mirror, and it is one for every vocabulary.  What is reached from a scope
of a closed store, or is inside of what comes of a text, is of the vocabulary as well.

## Main definitions

* `Store.Within` — the scopes that are linked keep to a vocabulary and to links.
* `Links.given`, `Store.Closed` — what was given out, and stores that name nothing else.

## Main results

* `closed_after_eval`, `closed_of_eval` — evaluation keeps a store closed, and its results.
* `Store.Closed.reaches`, `Store.Holds.like` — what is reached and what is inside of values.
* `closed_runAll`, `closed_of_run` — sessions keep a store closed, and what comes of a text.
-/

namespace Monkey

variable {V : Vocabulary} {R R' : Links}

/-! ### Scopes within a vocabulary -/

/-- The scopes that are linked to themselves bind values that are like themselves only, and lead
to such scopes. -/
structure Store.Within (V : Vocabulary) (R : Links) (s : Store) : Prop where
  bound : ∀ {i : ScopeId} {here : Scope}, R.scope i i → s.scopes[i]? = some here →
    ∀ b ∈ here.bindings, b.2.Like V R b.2
  outer : ∀ {i : ScopeId} {here : Scope}, R.scope i i → s.scopes[i]? = some here →
    ∀ o ∈ here.outer, R.scope o o

namespace Store

variable {s : Store}

theorem Within.lookup (h : s.Within V R) {scope : ScopeId} (hscope : R.scope scope scope)
    {name : String} {v : Value} (hv : s.lookup scope name = some v) : v.Like V R v := by
  fun_induction s.lookup scope name with
  | case1 => cases hv
  | case2 scope here is_there w hw =>
    cases hv
    obtain ⟨l₁, l₂, hb, -⟩ := List.lookup_eq_some_iff.mp hw
    exact h.bound hscope is_there (name, v) (by simp [hb])
  | case3 => cases hv
  | case4 scope here is_there hnone o ho hlt ih =>
    exact ih (h.outer hscope is_there o ho) hv
  | case5 => cases hv

theorem Within.bind (h : s.Within V R) (scope : ScopeId) (name : String) {v : Value}
    (hv : v.Like V R v) : (s.bind scope name v).Within V R where
  bound hi is_there b hb := by
    obtain ⟨old, hold, rfl | rfl⟩ := getElem?_bind is_there
    · exact h.bound hi hold b hb
    · rcases mem_put hb with hb | rfl
      · exact h.bound hi hold b hb
      · exact hv
  outer hi is_there o ho := by
    obtain ⟨old, hold, rfl | rfl⟩ := getElem?_bind is_there
    · exact h.outer hi hold o ho
    · exact h.outer hi hold o ho

/-- A scope is added, and links may become more, but of the scopes that were there no other ones
are linked. -/
theorem Within.addScope (h : s.Within V R) (hR : R ≤ R')
    (hold : ∀ i, R'.scope i i → i < s.size → R.scope i i) {outer : Option ScopeId}
    (houter : ∀ o ∈ outer, R.scope o o) : (s.addScope outer).Within V R' where
  bound {i _} hi is_there b hb := by
    simp only [Store.addScope, Array.getElem?_push] at is_there
    split at is_there
    · cases is_there
      cases hb
    · have hlt : i < s.size := (Array.getElem?_eq_some_iff.mp is_there).1
      exact (h.bound (hold i hi hlt) is_there b hb).mono hR
  outer {i _} hi is_there o ho := by
    simp only [Store.addScope, Array.getElem?_push] at is_there
    split at is_there
    · cases is_there
      exact hR.2 _ _ (houter o ho)
    · have hlt : i < s.size := (Array.getElem?_eq_some_iff.mp is_there).1
      exact hR.2 _ _ (h.outer (hold i hi hlt) is_there o ho)

/-- The scopes are the same ones, and links of identities become more. -/
theorem Within.grow {t : Store} (h : s.Within V R) (hR : R ≤ R') (heq : t.scopes = s.scopes)
    (hold : ∀ i, R'.scope i i → R.scope i i) : t.Within V R' where
  bound hi is_there b hb := (h.bound (hold _ hi) (heq ▸ is_there) b hb).mono hR
  outer hi is_there o ho := hR.2 _ _ (h.outer (hold _ hi) (heq ▸ is_there) o ho)

end Store

/-! ### Closed stores -/

/-- What was given out is linked to itself. -/
def Links.given (s : Store) : Links where
  identity i j := i = j ∧ i < s.next
  scope a b := a = b ∧ a < s.size
  identity_iff := by
    rintro i _ i' _ ⟨rfl, -⟩ ⟨rfl, -⟩
    exact Iff.rfl

theorem Links.given_le {s t : Store} (hnext : s.next ≤ t.next) (hsize : s.size ≤ t.size) :
    given s ≤ given t :=
  ⟨fun _ _ h => ⟨h.1, Nat.lt_of_lt_of_le h.2 hnext⟩,
    fun _ _ h => ⟨h.1, Nat.lt_of_lt_of_le h.2 hsize⟩⟩

/-- What is given out is given out for good. -/
theorem Links.le_of_given_le {s t : Store} (h : given s ≤ given t) :
    s.next ≤ t.next ∧ s.size ≤ t.size :=
  ⟨Nat.le_of_not_lt fun hlt => Nat.lt_irrefl _ (h.1 _ _ ⟨rfl, hlt⟩).2,
    Nat.le_of_not_lt fun hlt => Nat.lt_irrefl _ (h.2 _ _ ⟨rfl, hlt⟩).2⟩

/-- A value is of a vocabulary, and all that it names was given out. -/
abbrev Value.Closed (V : Vocabulary) (s : Store) (v : Value) : Prop :=
  v.Like V (.given s) v

/-- The values in a store are of a vocabulary, and the store names nothing that was not given
out. -/
abbrev Store.Closed (V : Vocabulary) (s : Store) : Prop :=
  s.Within V (.given s)

theorem Store.given_le_addScope (s : Store) (outer : Option ScopeId) :
    Links.given s ≤ .given (s.addScope outer) :=
  Links.given_le (Nat.le_refl _) (s.size_addScope outer ▸ Nat.le_succ _)

theorem Links.given_bind (s : Store) (scope : ScopeId) (name : String) (v : Value) :
    given (s.bind scope name v) = given s := by
  simp only [given, s.size_bind]
  rfl

theorem Store.closed_empty : Store.empty.Closed V where
  bound hi := absurd hi.2 (Nat.not_lt_zero _)
  outer hi := absurd hi.2 (Nat.not_lt_zero _)

theorem Store.Closed.addScope {s : Store} (h : s.Closed V) {outer : Option ScopeId}
    (houter : ∀ o ∈ outer, o < s.size) : (s.addScope outer).Closed V := by
  exact Store.Within.addScope h (s.given_le_addScope _) (fun i _ hi => ⟨rfl, hi⟩)
    fun o ho => ⟨rfl, houter o ho⟩

/-- **A closed store mirrors itself.** -/
def Mirror.closed (V : Vocabulary) : Mirror V where
  Related R s s' := s = s' ∧ R = .given s ∧ s.Closed V
  lookup := by
    rintro R s _ a _ name ⟨rfl, rfl, hs⟩ ⟨rfl, ha⟩ -
    cases h : s.lookup a name with
    | none => exact .none
    | some v => exact .some (hs.lookup ⟨rfl, ha⟩ h)
  bind := by
    rintro R s _ a _ v w name ⟨rfl, rfl, hs⟩ ⟨rfl, ha⟩ hv
    -- the same is linked only, so the same is bound
    have hid : ∀ i j, (Links.given s).identity i j → j = i := fun _ _ h => h.1.symm
    have hscope : ∀ i j, (Links.given s).scope i j → j = i := fun _ _ h => h.1.symm
    obtain rfl := hv.eq hid hscope
    refine ⟨rfl, (Links.given_bind ..).symm, ?_⟩
    rw [Store.Closed, Links.given_bind]
    exact hs.bind a name hv
  addScope := by
    rintro R s _ a _ ⟨rfl, rfl, hs⟩ ⟨rfl, ha⟩
    have hnew : s.size < (s.addScope (some a)).size :=
      s.size_addScope (some a) ▸ Nat.lt_succ_self _
    refine ⟨_, s.given_le_addScope _, ⟨rfl, hnew⟩, rfl, rfl, ?_⟩
    exact Store.Closed.addScope hs fun o ho => Option.some.inj ho ▸ ha
  issue := by
    rintro R s _ ⟨rfl, rfl, hs⟩
    have hle : Links.given s ≤ .given s.issue := Links.given_le (Nat.le_succ _) (Nat.le_refl _)
    exact ⟨_, hle, ⟨rfl, Nat.lt_succ_self _⟩, rfl, rfl, hs.grow hle rfl fun _ hi => hi⟩
  print := by
    rintro R s _ line ⟨rfl, rfl, hs⟩
    exact ⟨rfl, rfl, hs.grow le_rfl rfl fun _ hi => hi⟩

/-! ### Evaluation -/

namespace Evaluation

variable {α : Type} {s : Store} {Q : Links → α → α → Prop}

/-- What an evaluation comes to that mirrors itself: the store is closed again, nothing that was
given out is taken back, and the result is as it should be. -/
theorem closed_of_mirrors {e : Evaluation α} (h : Mirrors (.closed V) (.given s) Q e e)
    (hs : s.Closed V) :
    (e.after s).Closed V ∧ (s.next ≤ (e.after s).next ∧ s.size ≤ (e.after s).size) ∧
      ∀ a t, e s = .ok a t → Q (.given t) a a := by
  have h := h le_rfl ⟨rfl, rfl, hs⟩
  unfold after
  cases hr : e s with
  | ok a t =>
    rw [hr] at h
    cases h with
    | ok grown related results =>
      obtain ⟨-, rfl, ht⟩ := related
      refine ⟨ht, Links.le_of_given_le grown, ?_⟩
      rintro _ _ ⟨⟩
      exact results
  | error why t =>
    rw [hr] at h
    cases h with
    | error grown related =>
      obtain ⟨-, rfl, ht⟩ := related
      exact ⟨ht, Links.le_of_given_le grown, nofun⟩

end Evaluation

section

variable {s : Store} {n : Node} {scope : ScopeId}

/-- Evaluation keeps a store closed, and takes nothing back. -/
theorem closed_after_eval (depth : Nat) (hn : n.Within V) (hscope : scope < s.size)
    (hs : s.Closed V) :
    ((Evaluation.eval depth n scope).after s).Closed V ∧
      s.size ≤ ((Evaluation.eval depth n scope).after s).size := by
  obtain ⟨hclosed, ⟨-, hsize⟩, -⟩ := Evaluation.closed_of_mirrors
    (Evaluation.mirrors_eval (.closed V) depth _ n scope scope hn ⟨rfl, hscope⟩) hs
  exact ⟨hclosed, hsize⟩

/-- What comes of a tree in a closed store names nothing that was not given out. -/
theorem closed_of_eval {depth : Nat} (hn : n.Within V) (hscope : scope < s.size)
    (hs : s.Closed V) {v : Value} {t : Store}
    (h : Evaluation.eval depth n scope s = .ok (some v) t) : v.Closed V t := by
  obtain ⟨-, -, hresult⟩ := Evaluation.closed_of_mirrors
    (Evaluation.mirrors_eval (.closed V) depth _ n scope scope hn ⟨rfl, hscope⟩) hs
  cases hresult _ _ h with
  | some hv => exact hv

end

/-! ### What is reached -/

namespace Store

variable {s : Store} {start : ScopeId}

mutual

/-- A scope from which another one is reached is there. -/
theorem ReachesScope.eq_or_lt {i : ScopeId} :
    s.ReachesScope start i → i = start ∨ start < s.size
  | .start => .inl rfl
  | .outer reached is_there _ => by
    rcases reached.eq_or_lt with rfl | h
    · exact .inr (Array.getElem?_eq_some_iff.mp is_there).1
    · exact .inr h
  | .closure reached => .inr reached.lt_size

theorem ReachesValue.lt_size {v : Value} : s.ReachesValue start v → start < s.size
  | .bound reached is_there _ => by
    rcases reached.eq_or_lt with rfl | h
    · exact (Array.getElem?_eq_some_iff.mp is_there).1
    · exact h
  | .element reached _ => reached.lt_size
  | .key reached _ => reached.lt_size
  | .entry reached _ => reached.lt_size

end

mutual

/-- The scopes that are reached from a linked scope are linked, and the values are like
themselves. -/
theorem ReachesScope.linked {i : ScopeId} (hs : s.Within V R) (hstart : R.scope start start) :
    s.ReachesScope start i → R.scope i i
  | .start => hstart
  | .outer reached is_there leads => hs.outer (reached.linked hs hstart) is_there _ leads
  | .closure reached => by
    cases reached.like hs hstart with
    | function _ _ _ scopes => exact scopes

theorem ReachesValue.like {v : Value} (hs : s.Within V R) (hstart : R.scope start start) :
    s.ReachesValue start v → v.Like V R v
  | .bound reached is_there mem => hs.bound (reached.linked hs hstart) is_there _ mem
  | .element reached mem => (reached.like hs hstart).elements _ mem
  | .key reached mem => ((reached.like hs hstart).entries _ mem).key
  | .entry reached mem => ((reached.like hs hstart).entries _ mem).value

end

/-- What is inside of a value that is like itself is so as well. -/
theorem Holds.like {v w : Value} (hs : s.Within V R) (hv : v.Like V R v) (h : s.Holds v w) :
    w.Like V R w := by
  induction h with
  | self => exact hv
  | element _ mem ih => exact ih.elements _ mem
  | key _ mem ih => exact (ih.entries _ mem).key
  | entry _ mem ih => exact (ih.entries _ mem).value
  | closure _ reached ih =>
    cases ih with
    | function _ _ _ scopes => exact reached.like hs scopes

/-- What is reached from a scope of a closed store names nothing that was not given out. -/
theorem Closed.reaches {v : Value} (hs : s.Closed V) (h : s.ReachesValue start v) :
    v.Closed V s :=
  h.like hs ⟨rfl, h.lt_size⟩

end Store

/-! ### Sessions -/

/-- The value to which a text comes. -/
def Outcome.value? : Outcome → Option Value
  | .finished o => o
  | _ => none

theorem Outcome.eq_of_key? {outcome : Outcome} {k : Int}
    (h : outcome.value?.bind Value.key? = some (.integer k)) :
    outcome = .finished (some (.integer k)) := by
  obtain ⟨v, hv, hkey⟩ := Option.bind_eq_some_iff.mp h
  obtain rfl := Value.eq_of_key? hkey
  cases outcome with
  | finished o => exact congrArg Outcome.finished hv
  | refused | stopped => cases hv

section Sessions

variable {depth : Nat} {scope : ScopeId} {s : Store}

/-- A text that is run keeps a store closed. -/
theorem closed_run (hV : V.HasLiterals) {text : String} (names : NamesWithin V text)
    (hscope : scope < s.size) (hs : s.Closed V) :
    (run depth text scope s).2.Closed V ∧ s.size ≤ (run depth text scope s).2.size := by
  rcases snd_run depth text scope s with heq | ⟨p, hp, hc, heq⟩
  · rw [heq]
    exact ⟨hs, Nat.le_refl _⟩
  · rw [heq]
    exact closed_after_eval depth (within_of_parse hV names hp hc) hscope hs

/-- A text that is run names nothing in its result that was not given out. -/
theorem closed_of_run (hV : V.HasLiterals) {text : String} (names : NamesWithin V text)
    (hscope : scope < s.size) (hs : s.Closed V) {v : Value} {t : Store}
    (h : run depth text scope s = (.finished (some v), t)) : v.Closed V t := by
  obtain ⟨p, hp, hc, hr⟩ := eval_of_finished h
  exact closed_of_eval (within_of_parse hV names hp hc) hscope hs hr

/-- A session keeps a store closed. -/
theorem closed_runAll (hV : V.HasLiterals) {texts : List String}
    (names : ∀ text ∈ texts, NamesWithin V text) (hscope : scope < s.size) (hs : s.Closed V) :
    (runAll depth texts scope s).Closed V ∧ s.size ≤ (runAll depth texts scope s).size := by
  induction texts generalizing s with
  | nil => exact ⟨hs, Nat.le_refl _⟩
  | cons text texts ih =>
    obtain ⟨hname, hnames⟩ := List.forall_mem_cons.mp names
    obtain ⟨hs', hsize⟩ := @closed_run _ depth _ _ hV _ hname hscope hs
    obtain ⟨ht, hsize'⟩ := ih hnames (Nat.lt_of_lt_of_le hscope hsize) hs'
    exact ⟨ht, Nat.le_trans hsize hsize'⟩

end Sessions

end Monkey
