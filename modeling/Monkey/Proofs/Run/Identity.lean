import Monkey.Proofs.Evaluation.Passing
import Monkey.Proofs.Run.Lexical
import Monkey.Proofs.Run.Moment
import Monkey.Proofs.Value.Equality

/-!
# Objects keep their identity

An object is made in three ways: a literal is evaluated, or `push` or `rest` makes an array.  It is
given the next identity, and all that exists by then has older ones; so it is not equal to anything
that was there before, be that in a scope, inside of something else, or on its way between two
parts of an expression.

From then on the object is handed on as it is, and equal to itself wherever it is found again.

## Main definitions

* `Value.Distinct` — `==` tells two values apart.
* `Moment.Makes` — an object is made.

## Main results

* `Value.distinct_of_new` — what has the next identity is told apart from everything that exists.
* `Moment.Makes.result`, `Moment.exists_makes` — what makes objects.
* `identity_is_fresh_and_kept` — objects are new, and stay the same.
-/

namespace Monkey

open Evaluation

/-! ### New objects -/

namespace Value

variable {v w : Value} {id : Identity}

theorem mark?_eq_object_iff {kind : Kind} :
    v.mark? = some (.object kind id) ↔ v.identity? = some id ∧ v.kind = kind := by
  cases v <;> simp [mark?, identity?, Value.kind, and_comm]

/-- `==` tells two values apart, whichever of them comes first. -/
def Distinct (v w : Value) : Prop :=
  applyInfix "==" v w = .ok (.boolean false) ∧ applyInfix "==" w v = .ok (.boolean false)

/-- What has the next identity is told apart from everything that exists. -/
theorem distinct_of_new {s : Store} (hv : v.identity? = some s.next) (hw : w.Existing s) :
    v.Distinct w := by
  have hmark : v.mark? = some (.object v.kind s.next) := mark?_eq_object_iff.mpr ⟨hv, rfl⟩
  have hstring : v.kind ≠ .string := by
    rw [ne_eq, ← mark?_eq_none_iff, hmark]
    exact nofun
  have hne : v.mark? ≠ w.mark? := by
    intro heq
    rw [hmark] at heq
    exact Nat.lt_irrefl _ ((hw w .self).1 _ (mark?_eq_object_iff.mp heq.symm).1)
  rw [Distinct, (applyInfix_marks fun h => hstring h.1).1,
    (applyInfix_marks fun h => hstring h.2).1, decide_eq_false hne, decide_eq_false hne.symm]
  exact ⟨rfl, rfl⟩

end Value

namespace Builtin

variable {s t : Store} {vs : List Value} {v : Value}

/-- An array to which `push` comes is a new one. -/
theorem identity?_of_push (depth : Nat) (h : push.apply depth vs s = .ok v t)
    (hkind : v.kind = .array) : v.identity? = some s.next := by
  change pushOnto vs s = _ at h
  unfold pushOnto at h
  split at h
  · cases h
    rfl
  all_goals
    cases h
    cases hkind

/-- An array to which `rest` comes is a new one. -/
theorem identity?_of_rest (depth : Nat) (h : rest.apply depth vs s = .ok v t)
    (hkind : v.kind = .array) : v.identity? = some s.next := by
  change onOne (onArray rest restOf) vs s = _ at h
  unfold onOne onArray restOf at h
  split at h
  · split at h
    · split at h
      · cases h
        cases hkind
      · cases h
        rfl
    · cases h
      cases hkind
  · cases h
    cases hkind

end Builtin

namespace Moment

/-- From a moment on, the parts of a tree have come to values; at the second moment these are at
hand, and then the object is made. -/
inductive Makes : Moment → Moment → Value → Prop
  | array {depth : Nat} {token : Token} {elements : List Node} {scope : ScopeId} {s t : Store}
    {held vs : List Value} (come : values (eval depth) scope elements s = .ok (.ok vs) t) :
    Makes ⟨depth + 1, .array token elements, scope, s, held⟩
      ⟨depth + 1, .array token elements, scope, t, vs ++ held⟩ (.array t.next vs)
  | hash {depth : Nat} {token : Token} {pairs : List (Node × Node)} {scope : ScopeId}
    {s t : Store} {held : List Value} {es : List (Value × Value)}
    (come : entries (eval depth) scope pairs [] s = .ok (.ok es) t) :
    Makes ⟨depth + 1, .hash token pairs, scope, s, held⟩
      ⟨depth + 1, .hash token pairs, scope, t, es.map Prod.fst ++ es.map Prod.snd ++ held⟩
      (.hash t.next es)
  | function {depth : Nat} {token : Token} {parameters : List Node} {body : Node}
    {scope : ScopeId} {s : Store} {held : List Value} :
    Makes ⟨depth + 1, .function token parameters body, scope, s, held⟩
      ⟨depth + 1, .function token parameters body, scope, s, held⟩
      (.function s.next parameters (if body.isMissing then .block token [] else body) scope)
  | push {depth : Nat} {token : Token} {callee : Node} {arguments : List Node} {scope : ScopeId}
    {s t : Store} {held : List Value} {id : Identity} {es : List Value} {v : Value}
    (come : values (eval depth) scope (callee :: arguments) s =
      .ok (.ok [.builtin .push, .array id es, v]) t) :
    Makes ⟨depth + 1, .call token callee arguments, scope, s, held⟩
      ⟨depth + 1, .call token callee arguments, scope, t,
        [.builtin .push, .array id es, v] ++ held⟩ (.array t.next (es ++ [v]))
  | rest {depth : Nat} {token : Token} {callee : Node} {arguments : List Node} {scope : ScopeId}
    {s t : Store} {held : List Value} {id : Identity} {e : Value} {es : List Value}
    (come : values (eval depth) scope (callee :: arguments) s =
      .ok (.ok [.builtin .rest, .array id (e :: es)]) t) :
    Makes ⟨depth + 1, .call token callee arguments, scope, s, held⟩
      ⟨depth + 1, .call token callee arguments, scope, t,
        [.builtin .rest, .array id (e :: es)] ++ held⟩ (.array t.next es)

/-- What comes of the tree at a moment. -/
def result (m : Moment) : EStateM.Result Stop Store (Option Value) :=
  eval m.depth m.node m.scope m.store

variable {m m' : Moment} {v : Value}

/-- The object is what comes of the tree, and its identity is the next one. -/
theorem Makes.result (h : m.Makes m' v) : m.result = .ok (some v) m'.store.issue := by
  cases h with
  | array come => exact eval_array come
  | hash come =>
    rw [Moment.result, eval, evalNode, bind_of_ok come]
    rfl
  | function => rfl
  | push come | rest come => exact eval_call come

theorem Makes.identity? (h : m.Makes m' v) : v.identity? = some m'.store.next := by
  cases h <;> rfl

/-- When an object is made the moment is a sound one. -/
theorem Makes.sound (h : m.Makes m' v) (hm : m.Sound) : m'.Sound := by
  cases h with
  | array come | push come | rest come =>
    obtain ⟨ht, hle, hvs⟩ := existing_of_values hm.store hm.there come
    exact hm.later ht hle hvs
  | hash come =>
    obtain ⟨ht, hle, hes⟩ := existing_of_entries hm.store hm.there come
    exact hm.later ht hle hes
  | function => exact hm

/-! ### Literals -/

section Signals

variable {eval : Evaluator} {scope : ScopeId} {s t : Store}

/-- What stops a row of values is a signal. -/
theorem isSignal_of_values {ns : List Node}
    (h : values eval scope ns s = .ok (.error v) t) : v.isSignal = true := by
  induction ns generalizing s with
  | nil => cases h
  | cons n ns ih =>
    rw [values] at h
    obtain ⟨u, s₁, -, h⟩ := exists_of_bind_eq_ok h
    split at h
    · next hu =>
      cases h
      exact hu
    · obtain ⟨r, s₂, hr, h⟩ := exists_of_bind_eq_ok h
      cases r with
      | error signal =>
        cases h
        exact ih hr
      | ok vs => cases h

/-- What stops a row of entries is a signal. -/
theorem isSignal_of_entries {ps : List (Node × Node)} {done : List (Value × Value)}
    (h : entries eval scope ps done s = .ok (.error v) t) : v.isSignal = true := by
  induction ps generalizing s done with
  | nil => cases h
  | cons p ps ih =>
    rw [entries] at h
    obtain ⟨k, s₁, -, h⟩ := exists_of_bind_eq_ok h
    split at h
    · next hk =>
      cases h
      exact hk
    · split at h
      · -- the key cannot be used
        cases h
        rfl
      · obtain ⟨u, s₂, -, h⟩ := exists_of_bind_eq_ok h
        split at h
        · next hu =>
          cases h
          exact hu
        · exact ih h

end Signals

/-- A literal that comes to no signal makes an object. -/
theorem exists_makes {u : Store} (hr : m.result = .ok (some v) u)
    (hv : v.isSignal = false) (hkind : m.node.kind ∈ [Node.Kind.array, .hash, .function]) :
    ∃ m', m.Makes m' v := by
  obtain ⟨depth, n, scope, s, held⟩ := m
  rw [Moment.result] at hr
  dsimp only at hr hkind
  cases depth with
  | zero => cases hr
  | succ depth =>
    rw [eval] at hr
    cases n with
    | array token elements =>
      obtain ⟨r, t, come, hr⟩ := exists_of_bind_eq_ok hr
      cases r with
      | error signal =>
        cases hr
        rw [isSignal_of_values come] at hv
        cases hv
      | ok vs =>
        cases hr
        exact ⟨_, .array come⟩
    | hash token pairs =>
      obtain ⟨r, t, come, hr⟩ := exists_of_bind_eq_ok hr
      cases r with
      | error signal =>
        cases hr
        rw [isSignal_of_entries come] at hv
        cases hv
      | ok es =>
        cases hr
        exact ⟨_, .hash come⟩
    | function token parameters body =>
      cases hr
      exact ⟨_, .function⟩
    | _ => simp [Node.kind] at hkind

end Moment

/-! ### Histories of objects -/

/-- **Objects are new, and stay the same.**  When a literal of an array, a hash or a function is
evaluated at any moment of a run, or `push` or `rest` makes an array, then the object is not equal
to anything that is known by then, or that was there before at all.

Handed on, a value stays the one that it is, and all but strings are equal to themselves.  A name
has the very value that `let` or a call binds it to; this stays so until the name is bound again in
the same scope, and it is read wherever no nearer scope binds the name.  What a function is left
with by `return`, or at its end, comes out of it.  The elements of an array are the values of its
parts, those of a hash are the last ones under their keys; they are found by index, by key, by
`first` and by `last`, also when `push` or `rest` has copied the array around them. -/
theorem identity_is_fresh_and_kept :
    (∀ (m m' : Moment) (v : Value), m.Arises → m.Makes m' v →
      m.result = .ok (some v) m'.store.issue ∧ (∀ w, m'.Knows w → w.Existing m'.store) ∧
      ∀ w, Value.Existing m'.store w → v.Distinct w) ∧
    (∀ (m : Moment) (v : Value) (u : Store), m.result = .ok (some v) u → v.isSignal = false →
      m.node.kind ∈ [Node.Kind.array, .hash, .function] → ∃ m', m.Makes m' v) ∧
    (∀ b ∈ [Builtin.push, .rest], ∀ depth arguments s v u, b.apply depth arguments s = .ok v u →
      v.kind = .array → ∀ w, Value.Existing s w → v.Distinct w) ∧
    (∀ v : Value, v.kind ≠ .string → v.Equals v) ∧
    (∀ depth token name x val scope s t v, Node.boundName? name = some x → scope < s.size →
      value (eval depth) val scope s = .ok v t → v.isSignal = false →
      ∃ u, eval (depth + 1) (.letStatement token name val) scope s = .ok none u ∧
        (u.bindings scope).lookup x = some v) ∧
    (∀ depth token callee arguments scope s t f vs,
      values (eval depth) scope (callee :: arguments) s = .ok (.ok (f :: vs)) t →
      eval (depth + 1) (.call token callee arguments) scope s =
        (some <$> apply (eval depth) depth f vs) t) ∧
    (∀ closure parameters arguments i s t before name x v after,
      parameters.zip arguments = before ++ (name, v) :: after → Node.boundName? name = some x →
      (∀ b ∈ after, b.1.boundName? ≠ some x) → enter closure parameters arguments s = .ok i t →
      (t.bindings i).lookup x = some v) ∧
    (∀ s here x v, Store.Arises s → (s.bindings here).lookup x = some v →
      (∀ depth n scope, (here = scope → x ∉ n.targets) →
        (((eval depth n scope).after s).bindings here).lookup x = some v) ∧
      (∀ depth depth' callee arguments,
        (((apply (eval depth) depth' callee arguments).after s).bindings here).lookup x =
          some v) ∧
      ∀ depth token i nearer further, s.Chain i (nearer ++ here :: further) →
        (∀ j ∈ nearer, (s.bindings j).lookup x = none) →
        eval (depth + 1) (.identifier token x) i s = .ok (some v) s) ∧
    (∀ depth depth' id closure parameters body arguments i s t u v,
      enter closure parameters arguments s = .ok i t → v.isSignal = false →
      (value (eval depth) body i t = .ok v u →
        apply (eval depth) depth' (.function id parameters body closure) arguments s = .ok v u) ∧
      ∀ depth'' token val t', ComesTo i depth body t (depth'' + 1) (.returnStatement token val) t' →
        value (eval depth'') val i t' = .ok v u →
        apply (eval depth) depth' (.function id parameters body closure) arguments s =
          .ok v u.issue) ∧
    (∀ depth token scope before n after s s₁ s₂ t us v ws,
      values (eval depth) scope before s = .ok (.ok us) s₁ →
      value (eval depth) n scope s₁ = .ok v s₂ → v.isSignal = false →
      values (eval depth) scope after s₂ = .ok (.ok ws) t →
      ∃ a, eval (depth + 1) (.array token (before ++ n :: after)) scope s =
        .ok (some a) t.issue ∧ a.ElementAt before.length v) ∧
    (∀ a k v, Value.ElementAt a k v → ∀ depth s,
      a.subscript (.integer k) = .ok v ∧
      (k = 0 → Builtin.first.apply depth [a] s = .ok v s) ∧
      (¬(∃ w, a.ElementAt (k + 1) w) → Builtin.last.apply depth [a] s = .ok v s) ∧
      (∀ w, ∃ b, Builtin.push.apply depth [a, w] s = .ok b s.issue ∧ b.ElementAt k v) ∧
      ∀ j, k = j + 1 → ∃ b, Builtin.rest.apply depth [a] s = .ok b s.issue ∧ b.ElementAt j v) ∧
    (∀ depth id es v s, ∃ b, Builtin.push.apply depth [.array id es, v] s = .ok b s.issue ∧
      b.ElementAt es.length v) ∧
    (∀ depth token scope s t pairs before k v after,
      PairsCome (eval depth) scope s pairs (before ++ (k, v) :: after) t →
      (∀ p ∈ after, p.1.key? ≠ k.key?) →
      ∃ es, eval (depth + 1) (.hash token pairs) scope s =
        .ok (some (.hash t.next es)) t.issue ∧ Value.subscript (.hash t.next es) k = .ok v) ∧
    ∀ depth token left subscript scope s s₁ t a k v,
      value (eval depth) left scope s = .ok a s₁ → a.isSignal = false →
      value (eval depth) subscript scope s₁ = .ok k t → k.isSignal = false →
      a.subscript k = .ok v →
      eval (depth + 1) (.index token left subscript) scope s = .ok (some v) t := by
  refine ⟨fun m m' v hm hmakes => ?_, fun m v u => Moment.exists_makes, ?_,
    fun v hv => Value.equals_iff.mpr ⟨hv, rfl⟩, fun _ _ _ _ _ _ _ _ _ => eval_let,
    fun _ _ _ _ _ _ _ _ _ => eval_call,
    fun _ _ _ _ _ _ _ _ _ _ _ => own_of_enter, fun s here x v hs hv => ⟨?_, ?_, ?_⟩, ?_,
    fun _ _ _ _ _ _ _ _ _ _ _ _ _ => eval_array_of_part, fun a k v h depth s => ?_,
    fun depth id es v s => Value.elementAt_pushed depth id es v s,
    fun _ _ _ _ _ _ _ _ _ _ => eval_hash_of_last,
    fun _ _ _ _ _ _ _ _ _ _ _ => eval_index⟩
  · have hsound := hmakes.sound hm.sound
    exact ⟨hmakes.result, fun w => hsound.existing,
      fun w => Value.distinct_of_new hmakes.identity?⟩
  · intro b hb depth arguments s v u h hkind w hw
    simp only [List.mem_cons, List.not_mem_nil, or_false] at hb
    rcases hb with rfl | rfl
    · exact Value.distinct_of_new (Builtin.identity?_of_push depth h hkind) hw
    · exact Value.distinct_of_new (Builtin.identity?_of_rest depth h hkind) hw
  · intro depth n scope hx
    exact (writes_eval depth n scope (· ∈ n.targets) (fun _ h => h) s).own hx hv
  · intro depth depth' callee arguments
    exact (untouched_apply (writes_eval depth) depth' callee arguments s).own hv
  · intro depth token i nearer further hc hnearer
    exact eval_identifier (hc.lookup_of_nearest hs.ordered hnearer hv)
  · intro depth depth' id closure parameters body arguments i s t u v henter hv
    exact ⟨fun hbody => apply_of_last henter hbody hv,
      fun _ _ _ _ hcomes hval => apply_of_return henter hcomes hval hv⟩
  · obtain ⟨hindex, hfirst, hlast⟩ := h.read depth s
    refine ⟨hindex, hfirst, hlast, fun w => h.push depth w s, ?_⟩
    rintro j rfl
    exact h.rest depth s

/-- Two arrays of the same elements in one comparison: the first one is held while the second one
is made.  One of them is bound to a name, and found again in an array that is copied. -/
theorem identity_is_fresh_and_kept_twice :
    let s := Store.empty.addScope none
    let literal : Node := .array default [.integer default 1]
    let a : Value := .array 0 [.integer 1]
    let m : Moment := ⟨2, literal, 0, s.issue, [a]⟩
    (m.Arises ∧ m.Knows a ∧ ∃ v, m.result = .ok (some v) s.issue.issue ∧ v.Distinct a) ∧
    (∃ u, eval 3 (.letStatement default (.identifier default "a") literal) 0 s = .ok none u ∧
      (u.bindings 0).lookup "a" = some a) ∧
    (a.Equals a ∧ Value.ElementAt (.array 5 [a]) 0 a ∧
      ∃ b, Builtin.push.apply 9 [.array 5 [a], .null] s = .ok b s.issue ∧ b.ElementAt 0 a) := by
  intro s literal a m
  have hs : s.Arises := Relation.ReflTransGen.single .addScope
  have hm : m.Arises := by
    have hstart : Moment.Arises ⟨3, .infixed default literal "==" literal, 0, s, []⟩ :=
      .start hs (by decide) nofun
    have hparts : (Node.infixed default literal "==" literal).operands = [literal] ++ [literal] :=
      rfl
    have hcome : values (eval 2) 0 [literal] s = .ok (.ok [a]) s.issue := rfl
    exact hstart.further (Moment.Leads.operand hparts hcome)
  have hknown : m.Knows a := .inl ⟨a, List.mem_singleton_self a, .self⟩
  have hone : values (eval 1) 0 [.integer default 1] s.issue = .ok (.ok [.integer 1]) s.issue := rfl
  have hmakes : m.Makes ⟨2, literal, 0, s.issue, [.integer 1] ++ [a]⟩ (.array 1 [.integer 1]) :=
    Moment.Makes.array hone
  obtain ⟨hfresh, -, -, hequals, hlet, -, -, -, -, -, helement, -⟩ := identity_is_fresh_and_kept
  obtain ⟨hresult, hexisting, hdistinct⟩ := hfresh _ _ _ hm hmakes
  have ha : a.Existing s.issue :=
    hexisting a (.inl ⟨a, List.mem_cons_of_mem _ (List.mem_singleton_self a), .self⟩)
  have hat : Value.ElementAt (.array 5 [a]) 0 a := ⟨5, [a], rfl, rfl⟩
  obtain ⟨-, -, -, hpush, -⟩ := helement _ _ _ hat 9 s
  exact ⟨⟨hm, hknown, _, hresult, hdistinct a ha⟩,
    hlet 2 default (.identifier default "a") "a" literal 0 s s.issue a rfl (by decide) rfl rfl,
    hequals a (by decide), hat, hpush .null⟩

end Monkey
