import Monkey.Proofs.Evaluation.Closed

/-!
# What exists

A value exists in a store if every object in it has an identity that was given out, and every
function in it was made in a scope that is there.  That is to say that the value is closed, so
whatever is evaluated in a closed store comes to values that exist.

An evaluation changes a store in four ways.  What all four of them keep, of stores that are closed,
is kept by every evaluation.

## Main definitions

* `Value.Contains` — what is inside of a value, scopes of functions apart.
* `Value.Existing` — a value exists in a store.
* `Store.Kept` — what the four ways keep in which an evaluation changes a store.

## Main results

* `Value.existing_iff` — a value exists exactly if it is closed.
* `Evaluation.kept_of_mirrors` — what an evaluation keeps.
-/

namespace Monkey

theorem Links.given_scope {s : Store} {i : ScopeId} (h : i < s.size) : (given s).scope i i :=
  ⟨rfl, h⟩

namespace Value

/-! ### Inside of a value -/

/-- What is inside of a value: itself, what arrays and hashes in it hold, and the operand of a
`return`. -/
inductive Contains (v : Value) : Value → Prop
  | self : Contains v v
  | element {id : Identity} {elements : List Value} {w : Value}
      (inside : Contains v (.array id elements)) (mem : w ∈ elements) : Contains v w
  | key {id : Identity} {entries : List (Value × Value)} {e : Value × Value}
      (inside : Contains v (.hash id entries)) (mem : e ∈ entries) : Contains v e.1
  | entry {id : Identity} {entries : List (Value × Value)} {e : Value × Value}
      (inside : Contains v (.hash id entries)) (mem : e ∈ entries) : Contains v e.2
  | operand {id : Identity} {w : Value} (inside : Contains v (.returned id w)) : Contains v w

/-- The identity of an object. -/
def identity? : Value → Option Identity
  | array id _ | hash id _ | function id _ _ _ | returned id _ | error id _ => some id
  | integer _ | boolean _ | null | string _ | builtin _ => none

/-- A value exists in a store: the objects in it have identities that were given out, and the
functions were made in scopes that are there. -/
def Existing (s : Store) (v : Value) : Prop :=
  ∀ w, v.Contains w → (∀ id ∈ w.identity?, id < s.next) ∧ ∀ scope ∈ w.closure?, scope < s.size

variable {s t : Store} {u v w : Value}

theorem Contains.trans (huv : u.Contains v) (hvw : v.Contains w) : u.Contains w := by
  induction hvw with
  | self => exact huv
  | element _ mem ih => exact .element ih mem
  | key _ mem ih => exact .key ih mem
  | entry _ mem ih => exact .entry ih mem
  | operand _ ih => exact .operand ih

theorem Existing.inside (h : u.Existing s) (hv : u.Contains v) : v.Existing s :=
  fun w hw => h w (hv.trans hw)

theorem Existing.linked (h : v.Existing s) {id : Identity} (hid : v.identity? = some id) :
    (Links.given s).identity id id :=
  ⟨rfl, (h v .self).1 id hid⟩

/-! ### Existing is being closed -/

/-- What is inside of a closed value is closed. -/
theorem Contains.closed (hv : v.Closed .all s) (h : v.Contains w) : w.Closed .all s := by
  induction h with
  | self => exact hv
  | element _ mem ih => exact ih.elements _ mem
  | key _ mem ih => exact (ih.entries _ mem).key
  | entry _ mem ih => exact (ih.entries _ mem).value
  | operand _ ih =>
    cases ih with
    | returned _ operand => exact operand

/-- A closed value itself has an identity that was given out, and a scope that is there. -/
theorem given_of_closed (h : v.Closed .all s) :
    (∀ id ∈ v.identity?, id < s.next) ∧ ∀ scope ∈ v.closure?, scope < s.size := by
  cases h with
  | array linked | hash linked | returned linked | error linked =>
    exact ⟨fun id hid => Option.some.inj hid ▸ linked.2, nofun⟩
  | function linked _ _ scopes =>
    exact ⟨fun id hid => Option.some.inj hid ▸ linked.2, fun i hi => Option.some.inj hi ▸ scopes.2⟩
  | integer | boolean | null | string | builtin => exact ⟨nofun, nofun⟩

theorem closed_of_existing : ∀ v : Value, v.Existing s → v.Closed .all s
  | .integer _, _ => .integer trivial
  | .boolean b, _ => .boolean b
  | .null, _ => .null
  | .string text, _ => .string text
  | .array id elements, h =>
    .array (h.linked rfl) (List.forall₂_same.mpr fun v hv =>
      closed_of_existing v (h.inside (.element .self hv)))
  | .hash id entries, h =>
    .hash (h.linked rfl) (List.forall₂_same.mpr fun e he =>
      .mk (closed_of_existing e.1 (h.inside (.key .self he)))
        (closed_of_existing e.2 (h.inside (.entry .self he))))
  | .function id parameters body scope, h =>
    .function (h.linked rfl) (fun p _ => p.within_all) body.within_all
      ⟨rfl, (h _ .self).2 scope rfl⟩
  | .builtin _, _ => .builtin trivial
  | .returned id v, h =>
    .returned (h.linked rfl) (closed_of_existing v (h.inside (.operand .self)))
  | .error id fault, h => .error (h.linked rfl) fault
termination_by v => sizeOf v
decreasing_by
  · have := List.sizeOf_lt_of_mem hv
    simp only [Value.array.sizeOf_spec]
    omega
  · have := List.sizeOf_lt_of_mem he
    obtain ⟨k, v⟩ := e
    simp only [Value.hash.sizeOf_spec, Prod.mk.sizeOf_spec] at this ⊢
    omega
  · have := List.sizeOf_lt_of_mem he
    obtain ⟨k, v⟩ := e
    simp only [Value.hash.sizeOf_spec, Prod.mk.sizeOf_spec] at this ⊢
    omega
  · simp only [Value.returned.sizeOf_spec]
    omega

/-- **A value exists exactly if it is closed.** -/
theorem existing_iff : v.Existing s ↔ v.Closed .all s :=
  ⟨closed_of_existing v, fun h _ hw => given_of_closed (hw.closed h)⟩

/-- What exists goes on to exist. -/
theorem Existing.mono (h : v.Existing s) (hle : Links.given s ≤ .given t) : v.Existing t :=
  existing_iff.mpr ((existing_iff.mp h).mono hle)

/-- What was given out is linked to itself only. -/
theorem eq_of_given (h : v.Like .all (.given s) w) : w = v := by
  have hidentity : ∀ i j, (Links.given s).identity i j → j = i := fun _ _ h => h.1.symm
  have hscope : ∀ i j, (Links.given s).scope i j → j = i := fun _ _ h => h.1.symm
  exact h.eq hidentity hscope

theorem forall₂_like_of_existing {vs : List Value} (h : ∀ v ∈ vs, v.Existing s) :
    List.Forall₂ (Like .all (.given s)) vs vs :=
  List.forall₂_same.mpr fun v hv => existing_iff.mp (h v hv)

end Value

/-! ### What evaluations keep -/

/-- What is kept when a name is bound to a value that exists, a scope is added around which there
is an older one or none, an identity is given out and a line is printed. -/
structure Store.Kept (I : Store → Prop) : Prop where
  bind : ∀ {s : Store} {scope : ScopeId} {v : Value} (name : String), scope < s.size →
    v.Existing s → I s → I (s.bind scope name v)
  addScope : ∀ {s : Store} {outer : Option ScopeId}, (∀ o ∈ outer, o < s.size) →
    I s → I (s.addScope outer)
  issue : ∀ {s : Store}, I s → I s.issue
  print : ∀ {s : Store} (line : String), I s → I (s.print line)

/-- Closed stores of which something holds that is kept. -/
def Mirror.keeping (I : Store → Prop) (h : Store.Kept I) : Mirror .all where
  Related R s s' := (Mirror.closed .all).Related R s s' ∧ I s
  lookup hs := (Mirror.closed .all).lookup hs.1
  bind := by
    rintro R s s' a b v w name ⟨hs, hI⟩ hscope hv
    refine ⟨(Mirror.closed .all).bind name hs hscope hv, ?_⟩
    obtain ⟨rfl, rfl, -⟩ := hs
    obtain rfl := Value.eq_of_given hv
    exact h.bind name hscope.2 (Value.existing_iff.mpr hv) hI
  addScope := by
    rintro R s s' a b ⟨hs, hI⟩ hscope
    obtain ⟨R', hR, hnew, hs'⟩ := (Mirror.closed .all).addScope hs hscope
    obtain ⟨-, rfl, -⟩ := hs
    exact ⟨R', hR, hnew, hs', h.addScope (fun o ho => Option.some.inj ho ▸ hscope.2) hI⟩
  issue := by
    rintro R s s' ⟨hs, hI⟩
    obtain ⟨R', hR, hnew, hs'⟩ := (Mirror.closed .all).issue hs
    exact ⟨R', hR, hnew, hs', h.issue hI⟩
  print line hs := ⟨(Mirror.closed .all).print line hs.1, h.print line hs.2⟩

namespace Evaluation

variable {α : Type} {s : Store} {I : Store → Prop} {Q : Links → α → α → Prop} {e : Evaluation α}

/-- **What an evaluation keeps** of a closed store, whether it gives a result or stops. -/
theorem kept_of_mirrors (h : Store.Kept I)
    (he : Mirrors (.keeping I h) (.given s) Q e e) (hs : s.Closed .all) (hI : I s) :
    I (e.after s) := by
  have hends := he le_rfl ⟨⟨rfl, rfl, hs⟩, hI⟩
  unfold after
  generalize e s = r at hends
  cases hends with
  | ok grown related results => exact related.2
  | error grown related => exact related.2

end Evaluation

end Monkey
