import Monkey.Evaluation.Eval

/-!
# What can be reached from a scope

A scope leads to the values that it binds and to the scope around it, an array and a hash
lead to what they hold, and a function leads to the scope that it was made in.  The chains
of such steps are followed by an invariant instead: a set of scopes that is closed under
them, which holds all the scopes that are still to be made, and in which no signal is
found.  Everything an evaluation does to the store keeps it.

## Main definitions

* `Store.ReachesScope`, `Store.ReachesValue` — what a scope leads to.
* `Store.SignalFree` — no signal can be reached from a scope.
* `Value.Plain`, `Store.Plain` — the invariant, of values and of stores.

## Main results

* `Store.signalFree_iff` — signals cannot be reached exactly if the invariant holds of
  some set of scopes.
-/

namespace Monkey

/-! ### Reachability -/

mutual

/-- The scopes that can be reached from the scope `start`. -/
inductive Store.ReachesScope (s : Store) (start : ScopeId) : ScopeId → Prop
  | start : ReachesScope s start start
  | outer {i o : ScopeId} {scope : Scope} (reached : ReachesScope s start i)
      (is_there : s.scopes[i]? = some scope) (leads : scope.outer = some o) :
      ReachesScope s start o
  | closure {id : Identity} {parameters : List Node} {body : Node} {i : ScopeId}
      (reached : ReachesValue s start (.function id parameters body i)) :
      ReachesScope s start i

/-- The values that can be reached from the scope `start`. -/
inductive Store.ReachesValue (s : Store) (start : ScopeId) : Value → Prop
  | bound {i : ScopeId} {scope : Scope} {b : String × Value}
      (reached : ReachesScope s start i) (is_there : s.scopes[i]? = some scope)
      (mem : b ∈ scope.bindings) : ReachesValue s start b.2
  | element {id : Identity} {elements : List Value} {v : Value}
      (reached : ReachesValue s start (.array id elements)) (mem : v ∈ elements) :
      ReachesValue s start v
  | key {id : Identity} {entries : List (Value × Value)} {e : Value × Value}
      (reached : ReachesValue s start (.hash id entries)) (mem : e ∈ entries) :
      ReachesValue s start e.1
  | entry {id : Identity} {entries : List (Value × Value)} {e : Value × Value}
      (reached : ReachesValue s start (.hash id entries)) (mem : e ∈ entries) :
      ReachesValue s start e.2

end

/-- No signal can be reached from a scope. -/
def Store.SignalFree (s : Store) (scope : ScopeId) : Prop :=
  ∀ v, s.ReachesValue scope v → v.isSignal = false

/-! ### Plain values -/

/-- The values in which there is no signal and every function was made in a scope of
`L`. -/
inductive Value.Plain (L : ScopeId → Prop) : Value → Prop
  | integer (n : Int) : Plain L (.integer n)
  | boolean (b : Bool) : Plain L (.boolean b)
  | null : Plain L .null
  | string (text : String) : Plain L (.string text)
  | array (id : Identity) {elements : List Value} (plain : ∀ v ∈ elements, Plain L v) :
      Plain L (.array id elements)
  | hash (id : Identity) {entries : List (Value × Value)}
      (keys : ∀ e ∈ entries, Plain L e.1) (values : ∀ e ∈ entries, Plain L e.2) :
      Plain L (.hash id entries)
  | function (id : Identity) (parameters : List Node) (body : Node) {scope : ScopeId}
      (known : L scope) : Plain L (.function id parameters body scope)
  | builtin (b : Builtin) : Plain L (.builtin b)

namespace Value

variable {L : ScopeId → Prop}

theorem Plain.isSignal {v : Value} (h : v.Plain L) : v.isSignal = false := by
  cases h <;> rfl

theorem Plain.unwrapped {v : Value} (h : v.Plain L) : v.unwrapped = v := by
  cases h <;> rfl

theorem Plain.elements {id : Identity} {elements : List Value}
    (h : (Value.array id elements).Plain L) : ∀ v ∈ elements, v.Plain L := by
  cases h with
  | array _ plain => exact plain

/-- What may be missing is plain if null takes its place. -/
theorem plain_getD {o : Option Value} (h : ∀ v ∈ o, v.Plain L) : (o.getD .null).Plain L := by
  cases o with
  | none => exact .null
  | some v => exact h v rfl

/-! ### Operators give plain values -/

theorem plain_of_applyPrefix {operator : String} {right v : Value}
    (h : applyPrefix operator right = .ok v) : v.Plain L := by
  unfold applyPrefix at h
  split at h <;> cases h
  · exact .boolean _
  · exact .integer _

theorem plain_of_integerInfix {operator : String} {a b : Int} {v : Value}
    (h : integerInfix operator a b = .ok v) : v.Plain L := by
  unfold integerInfix at h
  split at h
  · cases h; exact .integer _
  · cases h; exact .integer _
  · cases h; exact .integer _
  · split at h <;> cases h
    exact .integer _
  · cases h; exact .boolean _
  · cases h; exact .boolean _
  · cases h; exact .boolean _
  · cases h; exact .boolean _
  · cases h

theorem plain_of_stringInfix {operator : String} {a b : String} {v : Value}
    (h : stringInfix operator a b = .ok v) : v.Plain L := by
  unfold stringInfix at h
  split at h <;> cases h
  exact .string _

theorem plain_of_otherInfix {operator : String} {left right v : Value}
    (h : otherInfix operator left right = .ok v) : v.Plain L := by
  unfold otherInfix at h
  split at h
  · cases h; exact .boolean _
  · cases h; exact .boolean _
  · split at h <;> cases h

theorem plain_of_applyInfix {operator : String} {left right v : Value}
    (h : applyInfix operator left right = .ok v) : v.Plain L := by
  unfold applyInfix at h
  split at h
  · exact plain_of_integerInfix h
  · exact plain_of_stringInfix h
  · exact plain_of_otherInfix h

theorem mem_of_valueUnder? {entries : List (Value × Value)} {key : Key} {v : Value}
    (h : valueUnder? entries key = some v) : ∃ e ∈ entries, e.2 = v := by
  obtain ⟨e, he, rfl⟩ := Option.map_eq_some_iff.mp h
  exact ⟨e, List.mem_of_find?_eq_some he, rfl⟩

theorem plain_of_subscript {left i v : Value} (hl : left.Plain L)
    (h : left.subscript i = .ok v) : v.Plain L := by
  cases hl with
  | array id plain =>
    cases i <;> cases h
    -- an index out of bounds gives null
    split
    · exact .null
    · exact plain_getD fun w hw => plain w (List.mem_of_getElem? hw)
  | hash id keys values =>
    simp only [subscript] at h
    split at h <;> cases h
    -- what is found is the value of an entry, and what is not found is null
    refine plain_getD fun w hw => ?_
    obtain ⟨e, he, rfl⟩ := mem_of_valueUnder? hw
    exact values e he
  | _ => simp [subscript] at h

/-- What a hash holds after one more entry was there before or is of that entry. -/
theorem mem_putEntry {entries : List (Value × Value)} {k v : Value} {e : Value × Value}
    (h : e ∈ putEntry entries k v) : e ∈ entries ∨ e = (k, v) := by
  induction entries with
  | nil => exact .inr (List.mem_singleton.mp h)
  | cons d ds ih =>
    rw [putEntry] at h
    split at h
    · rcases List.mem_cons.mp h with rfl | h
      · exact .inr rfl
      · exact .inl (List.mem_cons_of_mem d h)
    · rcases List.mem_cons.mp h with rfl | h
      · exact .inl List.mem_cons_self
      · exact (ih h).imp_left (List.mem_cons_of_mem d)

end Value

/-! ### Plain stores -/

/-- The scopes of `L` bind plain values only and lead to scopes of `L`, and so will all the
scopes to come. -/
structure Store.Plain (L : ScopeId → Prop) (s : Store) : Prop where
  bound : ∀ ⦃i : ScopeId⦄ ⦃scope : Scope⦄, L i → s.scopes[i]? = some scope →
    ∀ b ∈ scope.bindings, b.2.Plain L
  outer : ∀ ⦃i : ScopeId⦄ ⦃scope : Scope⦄, L i → s.scopes[i]? = some scope →
    ∀ o ∈ scope.outer, L o
  fresh : ∀ ⦃i : ScopeId⦄, s.size ≤ i → L i

namespace Store

variable {L : ScopeId → Prop} {s : Store}

/-! ### The invariant follows reachability -/

mutual

theorem ReachesScope.mem {start i : ScopeId} (hs : s.Plain L) (hstart : L start) :
    s.ReachesScope start i → L i
  | .start => hstart
  | .outer reached is_there leads => hs.outer (reached.mem hs hstart) is_there _ leads
  | .closure reached => by
    cases reached.plain hs hstart with
    | function _ _ _ known => exact known

theorem ReachesValue.plain {start : ScopeId} {v : Value} (hs : s.Plain L)
    (hstart : L start) : s.ReachesValue start v → v.Plain L
  | .bound reached is_there mem => hs.bound (reached.mem hs hstart) is_there _ mem
  | .element reached mem => (reached.plain hs hstart).elements _ mem
  | .key reached mem => by
    cases reached.plain hs hstart with
    | hash _ keys _ => exact keys _ mem
  | .entry reached mem => by
    cases reached.plain hs hstart with
    | hash _ _ values => exact values _ mem

end

/-- What is reached without a signal is plain, for any set of scopes that holds those that
are reached. -/
theorem plain_of_reachesValue {start : ScopeId} (hfree : s.SignalFree start)
    (hL : ∀ i, s.ReachesScope start i → L i) :
    ∀ v, s.ReachesValue start v → v.Plain L
  | .integer n, _ => .integer n
  | .boolean b, _ => .boolean b
  | .null, _ => .null
  | .string text, _ => .string text
  | .array id elements, h =>
    .array id fun v hv => plain_of_reachesValue hfree hL v (.element h hv)
  | .hash id entries, h =>
    .hash id (fun e he => plain_of_reachesValue hfree hL e.1 (.key h he))
      fun e he => plain_of_reachesValue hfree hL e.2 (.entry h he)
  | .function id parameters body scope, h =>
    .function id parameters body (hL scope (.closure h))
  | .builtin b, _ => .builtin b
  | .returned id v, h => nomatch hfree _ h
  | .error id fault, h => nomatch hfree _ h
termination_by v => sizeOf v
decreasing_by
  · have := List.sizeOf_lt_of_mem hv
    simp only [Value.array.sizeOf_spec]
    omega
  all_goals
    have := List.sizeOf_lt_of_mem he
    obtain ⟨k, v⟩ := e
    simp only [Value.hash.sizeOf_spec, Prod.mk.sizeOf_spec] at this ⊢
    omega

/-- **Signals cannot be reached exactly if the invariant holds** of some set of scopes. -/
theorem signalFree_iff {start : ScopeId} :
    s.SignalFree start ↔ ∃ L : ScopeId → Prop, L start ∧ s.Plain L := by
  constructor
  · intro hfree
    -- a function may name a scope that is yet to be made: these are taken in as well
    have hL : ∀ i, s.ReachesScope start i → s.ReachesScope start i ∨ s.size ≤ i :=
      fun _ => Or.inl
    refine ⟨fun i => s.ReachesScope start i ∨ s.size ≤ i, .inl .start, ?_, ?_, ?_⟩
    · intro i scope hi is_there b hb
      rcases hi with hi | hi
      · exact plain_of_reachesValue hfree hL _ (.bound hi is_there hb)
      · exact absurd is_there (by simp [Array.getElem?_eq_none hi])
    · intro i scope hi is_there o ho
      rcases hi with hi | hi
      · exact .inl (.outer hi is_there ho)
      · exact absurd is_there (by simp [Array.getElem?_eq_none hi])
    · exact fun i hi => .inr hi
  · rintro ⟨L, hstart, hs⟩ v hv
    exact (hv.plain hs hstart).isSignal

/-! ### The ways a store changes -/

theorem Plain.lookup (hs : s.Plain L) {scope : ScopeId} (hscope : L scope) {name : String}
    {v : Value} (h : s.lookup scope name = some v) : v.Plain L := by
  fun_induction s.lookup scope name with
  | case1 => cases h
  | case2 scope here is_there w hw =>
    cases h
    obtain ⟨l₁, l₂, hb, -⟩ := List.lookup_eq_some_iff.mp hw
    exact hs.bound hscope is_there (name, v) (by simp [hb])
  | case3 => cases h
  | case4 scope here is_there hnone o ho hlt ih =>
    exact ih (hs.outer hscope is_there o ho) h
  | case5 => cases h

theorem plain_empty (hL : ∀ i, L i) : empty.Plain L where
  bound i scope _ is_there := by simp [empty] at is_there
  outer i scope _ is_there := by simp [empty] at is_there
  fresh i _ := hL i

theorem Plain.issue (hs : s.Plain L) : s.issue.Plain L :=
  ⟨hs.bound, hs.outer, hs.fresh⟩

theorem Plain.print (hs : s.Plain L) (line : String) : (s.print line).Plain L :=
  ⟨hs.bound, hs.outer, hs.fresh⟩

theorem mem_put {bs : List (String × Value)} {name : String} {v : Value}
    {b : String × Value} (h : b ∈ Scope.put bs name v) : b ∈ bs ∨ b = (name, v) := by
  induction bs with
  | nil => exact .inr (List.mem_singleton.mp h)
  | cons d ds ih =>
    rw [Scope.put] at h
    split at h
    · rcases List.mem_cons.mp h with rfl | h
      · exact .inr rfl
      · exact .inl (List.mem_cons_of_mem d h)
    · rcases List.mem_cons.mp h with rfl | h
      · exact .inl List.mem_cons_self
      · exact (ih h).imp_left (List.mem_cons_of_mem d)

/-- A scope after a binding is the one before, or that one with the name bound. -/
theorem getElem?_bind {scope i : ScopeId} {name : String} {v : Value} {here : Scope}
    (h : (s.bind scope name v).scopes[i]? = some here) :
    ∃ old, s.scopes[i]? = some old ∧ (here = old ∨ here = old.set name v) := by
  simp only [Store.bind, Array.getElem?_modify] at h
  split at h
  · obtain ⟨old, hold, rfl⟩ := Option.map_eq_some_iff.mp h
    exact ⟨old, hold, .inr rfl⟩
  · exact ⟨here, h, .inl rfl⟩

theorem Plain.bind (hs : s.Plain L) (scope : ScopeId) (name : String) {v : Value}
    (hv : v.Plain L) : (s.bind scope name v).Plain L where
  bound i here hi is_there b hb := by
    obtain ⟨old, hold, rfl | rfl⟩ := getElem?_bind is_there
    · exact hs.bound hi hold b hb
    · rcases mem_put hb with hb | rfl
      · exact hs.bound hi hold b hb
      · exact hv
  outer i here hi is_there o ho := by
    obtain ⟨old, hold, rfl | rfl⟩ := getElem?_bind is_there
    · exact hs.outer hi hold o ho
    · exact hs.outer hi hold o ho
  fresh i hi := hs.fresh (by simpa [Store.bind, size] using hi)

theorem Plain.addScope (hs : s.Plain L) {outer : Option ScopeId} (ho : ∀ o ∈ outer, L o) :
    (s.addScope outer).Plain L where
  bound i here hi is_there b hb := by
    simp only [Store.addScope, Array.getElem?_push] at is_there
    split at is_there
    · cases is_there; cases hb
    · exact hs.bound hi is_there b hb
  outer i here hi is_there o h := by
    simp only [Store.addScope, Array.getElem?_push] at is_there
    split at is_there
    · cases is_there; exact ho o h
    · exact hs.outer hi is_there o h
  fresh i hi := by
    simp only [Store.addScope, size, Array.size_push] at hi
    exact hs.fresh (Nat.le_of_succ_le hi)

end Store

end Monkey
