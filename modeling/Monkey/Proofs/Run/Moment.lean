import Monkey.Proofs.Evaluation.Position
import Monkey.Proofs.Run.History

/-!
# The moments of a run

A run is made of evaluations inside of evaluations.  At the moment at which one of them begins, the
store is one thing; another one are the values that are held by the evaluations around it, which
have come to some of their parts already: a function that waits for its arguments, elements of an
array that is not there yet, the value of the last statement.  These are in no scope.

Moments lead to moments: from a construct to its parts, when the parts before have given values,
and from a call to the body of the function.  What is known at a moment, by way of the scopes or
because it is held, exists; and the store in the middle of a run is one that arises, so whatever
holds of those holds there as well.

## Main definitions

* `Node.operands`, `Node.statements` — the parts that are evaluated in a row.
* `Moment`, `Moment.Leads`, `Moment.Arises` — the moments of runs.
* `Moment.Sound` — what holds at every moment.
* `Moment.Knows` — the values that are known at a moment.

## Main results

* `Moment.Leads.sound`, `Moment.Arises.sound` — moments are sound.
* `Moment.Sound.existing` — what is known exists.
-/

namespace Monkey

namespace Node

/-- The parts whose values a construct asks for before it does anything else, in order. -/
def operands : Node → List Node
  | expressionStatement _ expression => [expression]
  | letStatement _ _ value | returnStatement _ value => [value]
  | prefixed _ _ right => [right]
  | infixed _ left _ right => [left, right]
  | conditional _ condition _ _ => [condition]
  | call _ callee arguments => callee :: arguments
  | array _ elements => elements
  | index _ left subscript => [left, subscript]
  | _ => []

/-- The statements of a program and of a block. -/
def statements : Node → List Node
  | program ns | block _ ns => ns
  | _ => []

end Node

/-- The beginning of an evaluation inside of a run. -/
structure Moment where
  depth : Nat
  node : Node
  scope : ScopeId
  store : Store
  /-- The values that are held by the evaluations around this one. -/
  held : List Value

namespace Moment

open Evaluation

/-- From one moment to that of a part, or of the body of a function. -/
inductive Leads : Moment → Moment → Prop
  | operand {depth : Nat} {n p : Node} {before after : List Node} {scope : ScopeId} {s t : Store}
    {held vs : List Value} (parts : n.operands = before ++ p :: after)
    (come : values (eval depth) scope before s = .ok (.ok vs) t) :
    Leads ⟨depth + 1, n, scope, s, held⟩ ⟨depth, p, scope, t, vs ++ held⟩
  | statement {depth : Nat} {n p : Node} {before after : List Node} {scope : ScopeId}
    {s t : Store} {held : List Value} {last : Option Value}
    (parts : n.statements = before ++ p :: after)
    (come : runBlock (eval depth) scope before none s = .ok last t)
    (goes_on : last.any Value.isSignal = false) :
    Leads ⟨depth + 1, n, scope, s, held⟩ ⟨depth, p, scope, t, last.toList ++ held⟩
  | consequence {depth : Nat} {token : Token} {c p a : Node} {scope : ScopeId} {s t : Store}
    {held : List Value} {v : Value} (come : value (eval depth) c scope s = .ok v t)
    (goes_on : v.isSignal = false) (holds : v.isTruthy = true) :
    Leads ⟨depth + 1, .conditional token c p a, scope, s, held⟩ ⟨depth, p, scope, t, v :: held⟩
  | alternative {depth : Nat} {token : Token} {c b p : Node} {scope : ScopeId} {s t : Store}
    {held : List Value} {v : Value} (come : value (eval depth) c scope s = .ok v t)
    (goes_on : v.isSignal = false) (fails : v.isTruthy = false)
    (present : p.isMissing = false) :
    Leads ⟨depth + 1, .conditional token c b p, scope, s, held⟩ ⟨depth, p, scope, t, v :: held⟩
  | key {depth : Nat} {token : Token} {p val : Node} {before after : List (Node × Node)}
    {scope : ScopeId} {s t : Store} {held : List Value} {es : List (Value × Value)}
    (come : entries (eval depth) scope before [] s = .ok (.ok es) t) :
    Leads ⟨depth + 1, .hash token (before ++ (p, val) :: after), scope, s, held⟩
      ⟨depth, p, scope, t, es.map Prod.fst ++ es.map Prod.snd ++ held⟩
  | entry {depth : Nat} {token : Token} {key p : Node} {before after : List (Node × Node)}
    {scope : ScopeId} {s t u : Store} {held : List Value} {es : List (Value × Value)} {k : Value}
    (come : entries (eval depth) scope before [] s = .ok (.ok es) t)
    (key_comes : value (eval depth) key scope t = .ok k u) (usable : k.key?.isNone = false) :
    Leads ⟨depth + 1, .hash token (before ++ (key, p) :: after), scope, s, held⟩
      ⟨depth, p, scope, u, k :: (es.map Prod.fst ++ es.map Prod.snd) ++ held⟩
  | body {depth : Nat} {token : Token} {callee : Node} {arguments : List Node} {scope i : ScopeId}
    {s t u : Store} {held : List Value} {id : Identity} {parameters : List Node} {body : Node}
    {closure : ScopeId} {vs : List Value}
    (come : values (eval depth) scope (callee :: arguments) s =
      .ok (.ok (.function id parameters body closure :: vs)) t)
    (entered : enter closure parameters vs t = .ok i u) :
    Leads ⟨depth + 1, .call token callee arguments, scope, s, held⟩
      ⟨depth, body, i, u, .function id parameters body closure :: vs ++ held⟩

/-- The moments that are reached: an evaluation that a host begins, after any history and with any
values in its hands, and all that it leads to. -/
inductive Arises : Moment → Prop
  | start {depth : Nat} {n : Node} {scope : ScopeId} {s : Store} {held : List Value}
    (history : s.Arises) (there : scope < s.size) (existing : ∀ v ∈ held, v.Existing s) :
    Arises ⟨depth, n, scope, s, held⟩
  | further {m m' : Moment} (before : Arises m) (leads : m.Leads m') : Arises m'

/-- A value is known at a moment if it is held or can be reached from a scope. -/
def Knows (m : Moment) (w : Value) : Prop :=
  (∃ v ∈ m.held, m.store.Holds v w) ∨ ∃ i, m.store.ReachesValue i w

/-! ### What holds at every moment -/

/-- At every moment the store arises, the scope is there, and what is held exists. -/
structure Sound (m : Moment) : Prop where
  store : m.store.Arises
  there : m.scope < m.store.size
  held : ∀ v ∈ m.held, v.Existing m.store

variable {m m' : Moment}

/-- What is known exists. -/
theorem Sound.existing (h : m.Sound) {w : Value} (hw : m.Knows w) : w.Existing m.store := by
  rcases hw with ⟨v, hv, hw⟩ | ⟨i, hw⟩
  · exact Value.existing_iff.mpr (hw.like h.store.closed (Value.existing_iff.mp (h.held v hv)))
  · exact Value.existing_iff.mpr (h.store.closed.reaches hw)

section Parts

variable {depth depth' : Nat} {scope : ScopeId} {s t : Store} {n p : Node} {ns : List Node}
  {ps : List (Node × Node)} {v : Value} {vs held : List Value} {es : List (Value × Value)}

/-- Later, in the same scope, with more values in hand. -/
theorem Sound.later (h : Sound ⟨depth, n, scope, s, held⟩) (ht : t.Arises)
    (hle : Links.given s ≤ .given t) (hvs : ∀ v ∈ vs, v.Existing t) :
    Sound ⟨depth', p, scope, t, vs ++ held⟩ where
  store := ht
  there := (hle.2 _ _ (Links.given_scope h.there)).2
  held := List.forall_mem_append.mpr ⟨hvs, fun v hv => (h.held v hv).mono hle⟩

theorem existing_of_value (hs : s.Arises) (hscope : scope < s.size)
    (h : value (eval depth) n scope s = .ok v t) :
    t.Arises ∧ Links.given s ≤ .given t ∧ v.Existing t := by
  obtain ⟨ht, hle, hv⟩ := Store.arises_of_ok
    (fun M => mirrors_value (mirrors_eval M depth) (Links.given_scope hscope) n.within_all) hs h
  exact ⟨ht, hle, Value.existing_iff.mpr hv⟩

theorem existing_of_values (hs : s.Arises) (hscope : scope < s.size)
    (h : values (eval depth) scope ns s = .ok (.ok vs) t) :
    t.Arises ∧ Links.given s ≤ .given t ∧ ∀ v ∈ vs, v.Existing t := by
  obtain ⟨ht, hle, hr⟩ := Store.arises_of_ok (fun M => mirrors_values (mirrors_eval M depth)
    (Links.given_scope hscope) fun n _ => n.within_all) hs h
  cases hr with
  | ok hvs => exact ⟨ht, hle, fun v hv => Value.existing_iff.mpr (List.forall₂_same.mp hvs v hv)⟩

theorem existing_of_entries (hs : s.Arises) (hscope : scope < s.size)
    (h : entries (eval depth) scope ps [] s = .ok (.ok es) t) :
    t.Arises ∧ Links.given s ≤ .given t ∧
      ∀ v ∈ es.map Prod.fst ++ es.map Prod.snd, v.Existing t := by
  obtain ⟨ht, hle, hr⟩ := Store.arises_of_ok (fun M => mirrors_entries (mirrors_eval M depth)
    (Links.given_scope hscope) (fun p _ => ⟨p.1.within_all, p.2.within_all⟩) .nil) hs h
  cases hr with
  | ok hes =>
    have halike := List.forall₂_same.mp hes
    refine ⟨ht, hle, List.forall_mem_append.mpr ⟨?_, ?_⟩⟩
    · exact List.forall_mem_map.mpr fun e he => Value.existing_iff.mpr (halike e he).key
    · exact List.forall_mem_map.mpr fun e he => Value.existing_iff.mpr (halike e he).value

theorem existing_of_runBlock (hs : s.Arises) (hscope : scope < s.size) {last : Option Value}
    (h : runBlock (eval depth) scope ns none s = .ok last t) :
    t.Arises ∧ Links.given s ≤ .given t ∧ ∀ v ∈ last.toList, v.Existing t := by
  obtain ⟨ht, hle, hr⟩ := Store.arises_of_ok (fun M => mirrors_runBlock (mirrors_eval M depth)
    (Links.given_scope hscope) (fun n _ => n.within_all) .none) hs h
  refine ⟨ht, hle, fun v hv => ?_⟩
  obtain rfl := Option.mem_toList.mp hv
  cases hr with
  | some hv => exact Value.existing_iff.mpr hv

/-- The scope of a call is inside of the one that the function was made in. -/
theorem existing_of_enter (hs : s.Arises) {id : Identity} {parameters : List Node} {body : Node}
    {closure i : ScopeId} (hcallee : (Value.function id parameters body closure).Existing s)
    (hvs : ∀ v ∈ vs, v.Existing s) (h : enter closure parameters vs s = .ok i t) :
    t.Arises ∧ Links.given s ≤ .given t ∧ i < t.size := by
  have hclosure : closure < s.size := (hcallee _ .self).2 _ rfl
  obtain ⟨ht, hle, hi⟩ := Store.arises_of_ok (fun M => mirrors_enter (Links.given_scope hclosure)
    parameters (Value.forall₂_like_of_existing hvs)) hs h
  exact ⟨ht, hle, hi.2⟩

end Parts

/-- **From one moment to another one** what holds is kept. -/
theorem Leads.sound (h : m.Leads m') (hm : m.Sound) : m'.Sound := by
  cases h with
  | operand _ come =>
    obtain ⟨ht, hle, hvs⟩ := existing_of_values hm.store hm.there come
    exact hm.later ht hle hvs
  | statement _ come _ =>
    obtain ⟨ht, hle, hvs⟩ := existing_of_runBlock hm.store hm.there come
    exact hm.later ht hle hvs
  | consequence come | alternative come =>
    obtain ⟨ht, hle, hv⟩ := existing_of_value hm.store hm.there come
    exact hm.later ht hle (List.forall_mem_singleton.mpr hv)
  | key come =>
    obtain ⟨ht, hle, hes⟩ := existing_of_entries hm.store hm.there come
    exact hm.later ht hle hes
  | entry come key_comes _ =>
    obtain ⟨ht, hle, hes⟩ := existing_of_entries hm.store hm.there come
    have hscope := (hle.2 _ _ (Links.given_scope hm.there)).2
    obtain ⟨hu, hle', hk⟩ := existing_of_value ht hscope key_comes
    exact hm.later hu (hle.trans hle')
      (List.forall_mem_cons.mpr ⟨hk, fun v hv => (hes v hv).mono hle'⟩)
  | body come entered =>
    obtain ⟨ht, hle, hvs⟩ := existing_of_values hm.store hm.there come
    obtain ⟨hcallee, harguments⟩ := List.forall_mem_cons.mp hvs
    obtain ⟨hu, hle', hi⟩ := existing_of_enter ht hcallee harguments entered
    refine ⟨hu, hi, List.forall_mem_append.mpr ⟨fun v hv => (hvs v hv).mono hle', fun v hv => ?_⟩⟩
    exact (hm.held v hv).mono (hle.trans hle')

/-- **Moments that arise are sound.** -/
theorem Arises.sound (h : m.Arises) : m.Sound := by
  induction h with
  | start history there existing => exact ⟨history, there, existing⟩
  | further _ leads ih => exact leads.sound ih

end Moment

end Monkey
