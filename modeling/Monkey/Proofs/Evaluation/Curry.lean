import Monkey.Proofs.Evaluation.Closed

/-!
# Functions of one parameter after another

A function of two parameters runs its body in one scope, and a function of one parameter that
makes a function of the other one runs it in two, one around the other.  Nothing in the language
tells the two apart, whatever the body does: it may bind the parameters anew, make functions that
keep them, or end early.

The run with two scopes is ahead by one scope and by one object, the function in between.  So
what one run makes stands for what the other one makes next.  The single scope stands for the
inner one of the two, and a name is bound in it if it is bound in either of the two; a new binding
goes to the inner one, where it is found first.

## Main definitions

* `shift`, `Links.shift` — numbers that make room for one more, and links that follow them.
* `Divided`, `Split` — a scope that stands for two, and stores with such a scope.
* `Node.paired`, `Node.curried` — the two functions.
* `Evaluation.callWith`, `Evaluation.callTwice` — a function is made, and called.
* `Evaluation.SeenAlike` — results of the same kind and text, and the same lines printed.

## Main results

* `Split.lookup` — a name leads to values that are alike in both stores.
* `currying_is_unobservable` — the two calls are seen alike.
-/

namespace Monkey

/-! ### Making room -/

/-- The numbers from some number on are moved up by one, so that there is room for it. -/
def shift (least i : Nat) : Nat := if i < least then i else i + 1

section

variable {least i j : Nat}

theorem shift_of_lt (h : i < least) : shift least i = i := if_pos h

theorem shift_of_le (h : least ≤ i) : shift least i = i + 1 := if_neg (Nat.not_lt.mpr h)

theorem shift_lt_shift_iff : shift least i < shift least j ↔ i < j := by
  unfold shift
  split <;> split <;> omega

theorem shift_inj : shift least i = shift least j ↔ i = j := by
  unfold shift
  split <;> split <;> omega

theorem shift_ne (least i : Nat) : shift least i ≠ least := by
  unfold shift
  split <;> omega

end

/-- Identities from `k` on and scopes from `m` on stand for those that come next. -/
def Links.shift (k m : Nat) : Links where
  identity i j := j = Monkey.shift k i
  scope a b := b = Monkey.shift m a
  identity_iff := by
    rintro i _ i' _ rfl rfl
    exact shift_inj.symm

/-- What was given out before stands for itself. -/
theorem Links.given_le_shift (s : Store) : given s ≤ shift s.next s.scopes.size := by
  constructor
  · rintro i _ ⟨rfl, hi⟩
    exact (shift_of_lt hi).symm
  · rintro a _ ⟨rfl, ha⟩
    exact (shift_of_lt ha).symm

/-! ### Scopes -/

section

variable {R : Links} {v w : Value}

/-- The scope `whole` inside of `around` stands for `inner` inside of `middle`, which has the
number `m` and is inside of `around`. -/
structure Divided (R : Links) (m around : ScopeId) (whole inner middle : Scope) : Prop where
  whole_outer : whole.outer = some around
  inner_outer : inner.outer = some m
  middle_outer : middle.outer = some around
  bindings : ∀ name, Option.Rel (Value.Like .all R) (whole.bindings.lookup name)
    ((inner.bindings.lookup name).or (middle.bindings.lookup name))

/-- A new binding goes to the inner scope. -/
theorem Divided.set {m around : ScopeId} {whole inner middle : Scope}
    (h : Divided R m around whole inner middle) (name : String) (hv : v.Like .all R w) :
    Divided R m around (whole.set name v) (inner.set name w) middle := by
  refine ⟨h.whole_outer, h.inner_outer, h.middle_outer, fun other => ?_⟩
  rw [Scope.set, Scope.set, Scope.lookup_put, Scope.lookup_put]
  split
  · exact .some hv
  · exact h.bindings other

end

/-! ### A scope that stands for two -/

/-- The scope `m` of one store, inside of `around`, stands for the scopes `m + 1` and `m` of
another one, and all later scopes stand for the next ones.  The other store is ahead by a scope
and by an identity. -/
structure Split (k m around : Nat) (s s' : Store) : Prop where
  first_next : k ≤ s.next
  next : s'.next = s.next + 1
  there : m < s.scopes.size
  size : s'.scopes.size = s.scopes.size + 1
  printed : s'.printed = s.printed
  others : ∀ i, i ≠ m →
    Option.Rel (ScopesAlike (.shift k m)) s.scopes[i]? s'.scopes[shift m i]?
  divided : ∃ whole inner middle, s.scopes[m]? = some whole ∧
    s'.scopes[m + 1]? = some inner ∧ s'.scopes[m]? = some middle ∧
      Divided (.shift k m) m around whole inner middle

namespace Split

variable {k m around : Nat} {s s' : Store}

/-- A name leads to values that are alike in both stores, or to none. -/
theorem lookup (h : Split k m around s s') (haround : around < m) (name : String) (i : Nat) :
    Option.Rel (Value.Like .all (.shift k m)) (s.lookup i name)
      (s'.lookup (shift m i) name) := by
  induction i using Nat.strongRecOn with
  | ind i ih =>
    by_cases him : i = m
    · -- the single scope on the one side, and both scopes on the other one
      subst him
      obtain ⟨whole, inner, middle, hwhole, hinner, hmiddle, hd⟩ := h.divided
      have hup : Option.Rel (Value.Like .all (.shift k i)) (s.lookup around name)
          (s'.lookup around name) := by
        have hrel := ih around haround
        rwa [shift_of_lt haround] at hrel
      have hmiddle : s'.lookup i name =
          (middle.bindings.lookup name).or (s'.lookup around name) := by
        rw [Store.lookup_of_there hmiddle, hd.middle_outer, Option.bind_some, if_pos haround]
      rw [shift_of_le (Nat.le_refl i), Store.lookup_of_there hwhole, Store.lookup_of_there hinner,
        hd.whole_outer, hd.inner_outer, Option.bind_some, Option.bind_some, if_pos haround,
        if_pos (Nat.lt_succ_self i), hmiddle, ← Option.or_assoc]
      exact rel_or (hd.bindings name) hup
    · -- an outer scope is older than the scope on both sides or on none
      refine Store.lookup_alike name (h.others i him) ?_ ?_
      · rintro a _ rfl
        exact shift_lt_shift_iff.symm
      · rintro a _ rfl hlt
        exact ih a hlt

theorem bind (h : Split k m around s s') (i : Nat) (name : String) {v w : Value}
    (hv : v.Like .all (.shift k m) w) :
    Split k m around (s.bind i name v) (s'.bind (shift m i) name w) := by
  obtain ⟨whole, inner, middle, hwhole, hinner, hmiddle, hd⟩ := h.divided
  refine ⟨h.first_next, h.next, ?_, ?_, h.printed, ?_, ?_⟩
  · exact Nat.lt_of_lt_of_eq h.there (s.size_bind i name v).symm
  · have hsize : (s.bind i name v).scopes.size = s.scopes.size := s.size_bind i name v
    rw [hsize]
    exact (s'.size_bind _ name w).trans h.size
  · exact fun j hj => Store.bind_alike name hv (h.others j hj) shift_inj.symm
  · have hmid : (s'.bind (shift m i) name w).scopes[m]? = some middle := by
      rw [Store.getElem?_scopes_bind, if_neg (shift_ne m i)]
      exact hmiddle
    by_cases him : i = m
    · refine ⟨whole.set name v, inner.set name w, middle, ?_, ?_, hmid, hd.set name hv⟩
      · rw [Store.getElem?_scopes_bind, if_pos him, hwhole]
        rfl
      · rw [Store.getElem?_scopes_bind, him, shift_of_le (Nat.le_refl m), if_pos rfl, hinner]
        rfl
    · refine ⟨whole, inner, middle, ?_, ?_, hmid, hd⟩
      · rw [Store.getElem?_scopes_bind, if_neg him]
        exact hwhole
      · have hne : shift m i ≠ m + 1 := by
          unfold shift
          split <;> omega
        rw [Store.getElem?_scopes_bind, if_neg hne]
        exact hinner

theorem addScope (h : Split k m around s s') (i : Nat) :
    Split k m around (s.addScope (some i)) (s'.addScope (some (shift m i))) := by
  obtain ⟨whole, inner, middle, hwhole, hinner, hmiddle, hd⟩ := h.divided
  have hthere := h.there
  have hsize := h.size
  have hpush : ∀ t : Store, ∀ o, (t.addScope o).scopes.size = t.scopes.size + 1 := fun t o =>
    Array.size_push _
  refine ⟨h.first_next, h.next, ?_, ?_, h.printed, ?_, whole, inner, middle, ?_, ?_, ?_, hd⟩
  · rw [hpush]
    omega
  · rw [hpush, hpush, hsize]
  · intro j hj
    refine Store.addScope_alike (.some rfl) (h.others j hj) ?_
    rw [hsize, ← shift_of_le (Nat.le_of_lt hthere)]
    exact shift_inj.symm
  · rw [Store.getElem?_scopes_addScope, if_neg (Nat.ne_of_lt hthere)]
    exact hwhole
  · rw [Store.getElem?_scopes_addScope, if_neg (by omega)]
    exact hinner
  · rw [Store.getElem?_scopes_addScope, if_neg (by omega)]
    exact hmiddle

end Split

/-- **Stores with a scope that stands for two mirror each other.** -/
def Mirror.split (k m around : Nat) (haround : around < m) : Mirror .all where
  Related R s s' := R = .shift k m ∧ Split k m around s s'
  lookup := by
    rintro R s s' a _ name ⟨rfl, h⟩ rfl -
    exact h.lookup haround name a
  bind := by
    rintro R s s' a _ v w name ⟨rfl, h⟩ rfl hv
    exact ⟨rfl, h.bind a name hv⟩
  addScope := by
    rintro R s s' a _ ⟨rfl, h⟩ rfl
    refine ⟨_, le_rfl, ?_, rfl, h.addScope a⟩
    exact h.size.trans (shift_of_le (Nat.le_of_lt h.there)).symm
  issue := by
    rintro R s s' ⟨rfl, h⟩
    refine ⟨_, le_rfl, h.next.trans (shift_of_le h.first_next).symm, rfl, ?_⟩
    exact { h with first_next := Nat.le_succ_of_le h.first_next, next := congrArg (· + 1) h.next }
  print := by
    rintro R s s' line ⟨rfl, h⟩
    exact ⟨rfl, { h with printed := congrArg (· ++ line ++ "\n") h.printed }⟩

/-! ### The two calls -/

namespace Evaluation

/-- A tree is evaluated, and what comes of it is called with some values. -/
def callWith (depth : Nat) (n : Node) (scope : ScopeId) (vs : List Value) : Evaluation Value := do
  let f ← value (eval depth) n scope
  apply (eval depth) depth f vs

/-- A tree is evaluated, what comes of it is called with a value, and what comes of that is called
with another one. -/
def callTwice (depth : Nat) (n : Node) (scope : ScopeId) (v w : Value) : Evaluation Value := do
  let f ← callWith depth n scope [v]
  apply (eval depth) depth f [w]

/-- The body of a function is run in a scope. -/
def runBody (depth : Nat) (body : Node) (scope : ScopeId) : Evaluation Value := do
  return (← value (eval depth) body scope).unwrapped

theorem exists_of_run' {e : Evaluation Value} {s : Store} {v : Value}
    (h : e.run' s = some v) : ∃ t, e s = .ok v t := by
  unfold EStateM.run' EStateM.run at h
  cases hr : e s with
  | ok w t =>
    rw [hr] at h
    cases h
    exact ⟨t, rfl⟩
  | error why t =>
    rw [hr] at h
    cases h

end Evaluation

/-- A function of two parameters, with its tokens. -/
def Node.paired (word first second : Token) (x y : String) (body : Node) : Node :=
  .function word [.identifier first x, .identifier second y] body

/-- A function of one parameter that gives a function of another one, with their tokens. -/
def Node.curried (word first brace start word' second : Token) (x y : String) (body : Node) :
    Node :=
  .function word [.identifier first x] (.block brace
    [.expressionStatement start (.function word' [.identifier second y] body)])

section

variable (s : Store) (scope : ScopeId) (x y : String) (a b : Value)

/-- The store in which the body of the function of two parameters runs. -/
def Store.entered : Store :=
  ((s.issue.addScope (some scope)).bind s.size x a).bind s.size y b

/-- The store behind the first call of the function in a function. -/
def Store.between : Store :=
  ((s.issue.addScope (some scope)).bind s.size x a).issue

/-- The store in which the body of the function in a function runs. -/
def Store.enteredTwice : Store :=
  ((s.between scope x a).addScope (some s.size)).bind (s.size + 1) y b

variable {s scope x y a b} {word first second brace start word' brace' : Token}
  {statements : List Node}

theorem callWith_paired (depth : Nat) :
    Evaluation.callWith (depth + 1)
        (.paired word first second x y (.block brace' statements)) scope [a, b] s =
      Evaluation.runBody (depth + 1) (.block brace' statements) s.size
        (s.entered scope x y a b) := rfl

theorem size_between : (s.between scope x a).scopes.size = s.scopes.size + 1 :=
  ((s.issue.addScope (some scope)).size_bind s.size x a).trans (s.issue.size_addScope _)

theorem callTwice_curried (depth : Nat) :
    Evaluation.callTwice (depth + 3)
        (.curried word first brace start word' second x y (.block brace' statements)) scope a b s =
      Evaluation.runBody (depth + 3) (.block brace' statements) (s.size + 1)
        (s.enteredTwice scope x y a b) := by
  -- the function in between is made in a store that has one more scope
  let t := s.between scope x a
  have hsize : t.size = s.size + 1 := size_between
  have hrun : Evaluation.callTwice (depth + 3)
      (.curried word first brace start word' second x y (.block brace' statements)) scope a b s =
        Evaluation.runBody (depth + 3) (.block brace' statements) t.size
          ((t.addScope (some s.size)).bind t.size y b) := rfl
  rw [hrun, hsize]
  rfl

/-- A scope of a closed store is like itself. -/
theorem scopesAlike_of_closed {R : Links} (hs : s.Closed .all) (hR : Links.given s ≤ R) {i : Nat}
    {c : Scope} (h : s.scopes[i]? = some c) : ScopesAlike R c c := by
  have hi : i < s.size := (Array.getElem?_eq_some_iff.mp h).1
  constructor
  · intro name
    cases hv : c.bindings.lookup name with
    | none => exact .none
    | some v =>
      obtain ⟨l₁, l₂, hb, -⟩ := List.lookup_eq_some_iff.mp hv
      have hlike := hs.bound ⟨rfl, hi⟩ h (name, v) (by simp [hb])
      exact .some (hlike.mono hR)
  · cases ho : c.outer with
    | none => exact .none
    | some o => exact .some (hR.2 _ _ (hs.outer ⟨rfl, hi⟩ h o ho))

/-- The scope of two parameters stands for the two scopes of one parameter each. -/
theorem divided_entered {R : Links} {m : ScopeId} (ha : a.Like .all R a) (hb : b.Like .all R b) :
    Divided R m scope ((Scope.set ⟨[], some scope⟩ x a).set y b) (Scope.set ⟨[], some m⟩ y b)
      (Scope.set ⟨[], some scope⟩ x a) := by
  refine ⟨rfl, rfl, rfl, fun name => ?_⟩
  simp only [Scope.set, Scope.lookup_put]
  by_cases hy : name = y
  · rw [if_pos hy, if_pos hy]
    exact .some hb
  · rw [if_neg hy, if_neg hy]
    by_cases hx : name = x
    · rw [if_pos hx]
      exact .some ha
    · rw [if_neg hx]
      exact .none

/-- A scope is added and a name bound there. -/
theorem getElem?_scopes_enter (t : Store) (outer : Option ScopeId) (i : Nat) :
    ((t.addScope outer).bind t.size x a).scopes[i]? =
      if i = t.scopes.size then some (Scope.set ⟨[], outer⟩ x a) else t.scopes[i]? := by
  rw [Store.getElem?_scopes_bind, Store.getElem?_scopes_addScope]
  change (if t.scopes.size = i then _ else _) = _
  by_cases hi : i = t.scopes.size
  · rw [if_pos hi, if_pos hi.symm, if_pos hi]
    rfl
  · rw [if_neg hi, if_neg (Ne.symm hi), if_neg hi]

theorem getElem?_between (i : Nat) :
    (s.between scope x a).scopes[i]? =
      if i = s.scopes.size then some (Scope.set ⟨[], some scope⟩ x a) else s.scopes[i]? :=
  getElem?_scopes_enter s.issue (some scope) i

theorem getElem?_entered (i : Nat) :
    (s.entered scope x y a b).scopes[i]? =
      if i = s.scopes.size then some ((Scope.set ⟨[], some scope⟩ x a).set y b)
      else s.scopes[i]? := by
  change ((s.between scope x a).bind s.scopes.size y b).scopes[i]? = _
  rw [Store.getElem?_scopes_bind, getElem?_between]
  by_cases hi : i = s.scopes.size
  · rw [if_pos hi.symm, if_pos hi, if_pos hi]
    rfl
  · rw [if_neg (Ne.symm hi), if_neg hi, if_neg hi]

theorem getElem?_enteredTwice (i : Nat) :
    (s.enteredTwice scope x y a b).scopes[i]? =
      if i = s.scopes.size + 1 then some (Scope.set ⟨[], some s.scopes.size⟩ y b)
      else (s.between scope x a).scopes[i]? := by
  have hsize : (s.between scope x a).scopes.size = s.scopes.size + 1 := size_between
  change (((s.between scope x a).addScope _).bind (s.scopes.size + 1) y b).scopes[i]? = _
  rw [← hsize]
  exact getElem?_scopes_enter _ (some s.size) i

/-- The bodies of the two functions run in stores with a scope that stands for two. -/
theorem split_entered (hs : s.Closed .all) (ha : a.Closed .all s) (hb : b.Closed .all s) :
    Split s.next s.scopes.size scope (s.entered scope x y a b)
      (s.enteredTwice scope x y a b) := by
  have hR := Links.given_le_shift s
  have hentered : (s.entered scope x y a b).scopes.size = s.scopes.size + 1 :=
    ((Store.size_bind _ _ _ _).trans (Store.size_bind _ _ _ _)).trans (s.issue.size_addScope _)
  have htwice : (s.enteredTwice scope x y a b).scopes.size = s.scopes.size + 1 + 1 :=
    ((Store.size_bind _ _ _ _).trans (Store.size_addScope _ _)).trans
      (congrArg (· + 1) size_between)
  have hdivided := @divided_entered scope x y a b _ s.scopes.size (ha.mono hR) (hb.mono hR)
  refine ⟨Nat.le_succ _, rfl, ?_, ?_, rfl, fun i hi => ?_, _, _, _, ?_, ?_, ?_, hdivided⟩
  · rw [hentered]
    exact Nat.lt_succ_self _
  · rw [hentered, htwice]
  · -- the other scopes were there before
    have hne : shift s.scopes.size i ≠ s.scopes.size + 1 := by
      rw [← shift_of_le (Nat.le_refl s.scopes.size)]
      exact mt shift_inj.mp hi
    rw [getElem?_entered, if_neg hi, getElem?_enteredTwice, if_neg hne, getElem?_between,
      if_neg (shift_ne _ i)]
    rcases Nat.lt_or_ge i s.scopes.size with hlt | hge
    · rw [shift_of_lt hlt, Array.getElem?_eq_getElem hlt]
      exact .some (scopesAlike_of_closed hs hR (Array.getElem?_eq_getElem hlt))
    · rw [shift_of_le hge, Array.getElem?_eq_none hge,
        Array.getElem?_eq_none (Nat.le_succ_of_le hge)]
      exact .none
  · rw [getElem?_entered, if_pos rfl]
  · rw [getElem?_enteredTwice, if_pos rfl]
  · rw [getElem?_enteredTwice, if_neg (Nat.ne_of_lt (Nat.lt_succ_self _)), getElem?_between,
      if_pos rfl]

end

/-! ### What is seen -/

/-- The fault of an error. -/
def Value.fault? : Value → Option Fault
  | error _ fault => some fault
  | _ => none

theorem Value.Like.fault? {V : Vocabulary} {R : Links} {v w : Value} (h : v.Like V R w) :
    w.fault? = v.fault? := by
  cases h <;> rfl

/-- Two evaluations come to values of the same kind, with the same fault if they are errors, that
are shown in the same way; or they stop for the same cause.  Both have printed the same. -/
inductive Evaluation.SeenAlike :
    EStateM.Result Stop Store Value → EStateM.Result Stop Store Value → Prop
  | ok {v w : Value} {t t' : Store} (kinds : w.kind = v.kind) (faults : w.fault? = v.fault?)
      (texts : w.inspect = v.inspect) (shown : ∀ depth, w.inspect? depth = v.inspect? depth)
      (lines : t'.printed = t.printed) : SeenAlike (.ok v t) (.ok w t')
  | error {why : Stop} {t t' : Store} (lines : t'.printed = t.printed) :
      SeenAlike (.error why t) (.error why t')

/-- **Currying is unobservable.**  In a closed store, as every session leaves one
(`closed_runAll`), a function of two parameters is made and called with two values; and a function
of one parameter that gives a function of the other one is made and called with one value after
the other.  Whatever the body is, both are seen alike. -/
theorem currying_is_unobservable (depth : Nat)
    (word first second word' first' brace' start' inner' second' brace : Token) (x y : String)
    (statements : List Node) (scope : ScopeId) (s : Store) (a b : Value)
    (hs : s.Closed .all) (hscope : scope < s.size) (ha : a.Closed .all s)
    (hb : b.Closed .all s) :
    Evaluation.SeenAlike
      (Evaluation.callWith (depth + 3)
        (.paired word first second x y (.block brace statements)) scope [a, b] s)
      (Evaluation.callTwice (depth + 3)
        (.curried word' first' brace' start' inner' second' x y (.block brace statements))
        scope a b s) := by
  let M := Mirror.split s.next s.scopes.size scope hscope
  have hlinked : (Links.shift s.next s.scopes.size).scope s.size (s.size + 1) :=
    (shift_of_le (Nat.le_refl _)).symm
  have hbody := (Evaluation.mirrors_value (Evaluation.mirrors_eval M (depth + 3)) hlinked
    (Node.within_all (.block brace statements))).bind fun _ _ _ _ hv =>
      Evaluation.Mirrors.value hv.unwrapped
  have hends := hbody le_rfl ⟨rfl, split_entered (x := x) (y := y) hs ha hb⟩
  rw [callWith_paired, callTwice_curried]
  unfold Evaluation.runBody
  revert hends
  generalize (Evaluation.value _ _ s.size >>= _) _ = r,
    (Evaluation.value _ _ (s.size + 1) >>= _) _ = r'
  intro hends
  cases hends with
  | ok grown related results =>
    exact .ok results.kind results.fault? results.inspect (fun _ => results.inspect? _)
      related.2.printed
  | error grown related => exact .error related.2.printed

/-- The body makes a function that gives `x`, binds `x` anew and calls the function. -/
theorem currying_is_unobservable_rebound :
    let body := [
      .letStatement default (.identifier default "f")
        (.function default [] (.block default [.expressionStatement default
          (.identifier default "x")])),
      .letStatement default (.identifier default "x")
        (.infixed default (.identifier default "x") "*" (.identifier default "y")),
      .expressionStatement default (.call default (.identifier default "f") [])]
    let s := Store.empty.addScope none
    let one := Evaluation.callWith 12
      (.paired default default default "x" "y" (.block default body)) 0 [.integer 6, .integer 7] s
    s.Closed .all ∧ 0 < s.size ∧ (Value.integer 6).Closed .all s ∧
    (Value.integer 7).Closed .all s ∧ (∃ k t, one = .ok (.integer k) t ∧ k = 42) ∧
    Evaluation.SeenAlike one
      (Evaluation.callTwice 12
        (.curried default default default default default default "x" "y" (.block default body))
        0 (.integer 6) (.integer 7) s) := by
  intro body s one
  have hs : s.Closed .all := Store.closed_empty.addScope nofun
  have hsize : 0 < s.size := Nat.one_pos
  have hsix : (Value.integer 6).Closed .all s := .integer trivial
  have hseven : (Value.integer 7).Closed .all s := .integer trivial
  have hone : ((Evaluation.callWith 12
      (.paired default default default "x" "y" (.block default body)) 0
      [.integer 6, .integer 7]).run' s).bind Value.key? = some (.integer 42) := by
    decide +kernel
  refine ⟨hs, hsize, hsix, hseven, ?_, ?_⟩
  · obtain ⟨v, hrun, hkey⟩ := Option.bind_eq_some_iff.mp hone
    obtain rfl := Value.eq_of_key? hkey
    obtain ⟨t, ht⟩ := Evaluation.exists_of_run' hrun
    exact ⟨42, t, ht, rfl⟩
  · exact currying_is_unobservable 9 default default default default default default default
      default default default "x" "y" body 0 s (.integer 6) (.integer 7) hs hsize hsix hseven

end Monkey
