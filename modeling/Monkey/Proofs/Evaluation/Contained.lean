import Monkey.Proofs.Evaluation.Frame
import Monkey.Proofs.Evaluation.Signals
import Monkey.Proofs.Syntax.Exact
import Monkey.Run

/-!
# Signals never become data

Errors and the results of `return` are values, but only on their way out.  Where none can be
reached from a scope, none can be reached from any scope after a tree was evaluated there, and
none is inside of the result, apart from the result itself: it may be an error, or a `return`
around a value without signals.  A `return` ends at a function and at a program, so none comes
out of a call or of a text that is run.

All of it is read off the evaluation with exceptions: what is thrown is never stored, and a
`return` that is thrown is caught where a function was called and at a program.

## Main definitions

* `Store.Holds`, `Store.SignalFreeValue` — what is inside of a value, and values in which
  there is no signal.
* `Store.Result` — what may come of a tree.
* `Throwing.CatchesReturn` — no `return` is thrown out of an evaluation.
* `runAll` — texts that are run one after another in one scope.

## Main results

* `Store.signalFreeValue_iff` — such values are the plain ones, for the scopes from which no
  signal can be reached.
* `signals_never_data` — signals never become data, over whole sessions.
-/

namespace Monkey

/-! ### Values without signals -/

/-- What is inside of a value: itself, what arrays and hashes in it hold, and what can be reached
from the scopes of functions in it. -/
inductive Store.Holds (s : Store) (v : Value) : Value → Prop
  | self : Holds s v v
  | element {id : Identity} {elements : List Value} {w : Value}
      (inside : Holds s v (.array id elements)) (mem : w ∈ elements) : Holds s v w
  | key {id : Identity} {entries : List (Value × Value)} {e : Value × Value}
      (inside : Holds s v (.hash id entries)) (mem : e ∈ entries) : Holds s v e.1
  | entry {id : Identity} {entries : List (Value × Value)} {e : Value × Value}
      (inside : Holds s v (.hash id entries)) (mem : e ∈ entries) : Holds s v e.2
  | closure {id : Identity} {parameters : List Node} {body : Node} {i : ScopeId} {w : Value}
      (inside : Holds s v (.function id parameters body i)) (reached : s.ReachesValue i w) :
      Holds s v w

/-- No signal is inside of a value. -/
def Store.SignalFreeValue (s : Store) (v : Value) : Prop :=
  ∀ w, s.Holds v w → w.isSignal = false

namespace Store

variable {L : ScopeId → Prop} {s t : Store}

/-- What is inside of a plain value is plain. -/
theorem Holds.plain {v w : Value} (hs : s.Plain L) (hv : v.Plain L) (h : s.Holds v w) :
    w.Plain L := by
  induction h with
  | self => exact hv
  | element _ mem ih => exact ih.elements _ mem
  | key _ mem ih =>
    cases ih with
    | hash _ keys _ => exact keys _ mem
  | entry _ mem ih =>
    cases ih with
    | hash _ _ values => exact values _ mem
  | closure _ reached ih =>
    cases ih with
    | function _ _ _ known => exact reached.plain hs known

theorem signalFreeValue_of_plain {v : Value} (hs : s.Plain L) (hv : v.Plain L) :
    s.SignalFreeValue v := by
  intro w hw
  exact (hw.plain hs hv).isSignal

/-- The scopes from which no signal can be reached are a set for which the invariant holds, and
they are the greatest one. -/
theorem plain_signalFree (s : Store) : s.Plain s.SignalFree := by
  -- what is reached from such a scope is of the invariant of that scope, so it is another one
  have hreach : ∀ i, s.SignalFree i → ∀ j, s.ReachesScope i j → s.SignalFree j := by
    intro i hi j hj
    obtain ⟨L, hL, hs⟩ := signalFree_iff.mp hi
    exact signalFree_iff.mpr ⟨L, hj.mem hs hL, hs⟩
  refine ⟨?_, ?_, ?_⟩
  · intro i here hi is_there b hb
    exact plain_of_reachesValue hi (hreach i hi) b.2 (.bound .start is_there hb)
  · intro i here hi is_there o ho
    exact hreach i hi o (.outer .start is_there ho)
  · intro i hi
    obtain ⟨L, hstart, hs⟩ : ∃ L : ScopeId → Prop, L i ∧ s.Plain L := by
      refine ⟨fun j => s.size ≤ j, hi, ?_, ?_, fun _ h => h⟩
      · intro j here hj is_there
        exact absurd is_there (by simp [Array.getElem?_eq_none hj])
      · intro j here hj is_there
        exact absurd is_there (by simp [Array.getElem?_eq_none hj])
    exact signalFree_iff.mpr ⟨L, hstart, hs⟩

theorem Holds.trans {u v w : Value} (huv : s.Holds u v) (hvw : s.Holds v w) : s.Holds u w := by
  induction hvw with
  | self => exact huv
  | element _ mem ih => exact .element ih mem
  | key _ mem ih => exact .key ih mem
  | entry _ mem ih => exact .entry ih mem
  | closure _ reached ih => exact .closure ih reached

theorem SignalFreeValue.inside {u v : Value} (h : s.SignalFreeValue u) (hv : s.Holds u v) :
    s.SignalFreeValue v :=
  fun w hw => h w (hv.trans hw)

theorem plain_of_signalFreeValue : ∀ v : Value, s.SignalFreeValue v → v.Plain s.SignalFree
  | .integer n, _ => .integer n
  | .boolean b, _ => .boolean b
  | .null, _ => .null
  | .string text, _ => .string text
  | .array id elements, h =>
    .array id fun v hv => plain_of_signalFreeValue v (h.inside (.element .self hv))
  | .hash id entries, h =>
    .hash id (fun e he => plain_of_signalFreeValue e.1 (h.inside (.key .self he)))
      fun e he => plain_of_signalFreeValue e.2 (h.inside (.entry .self he))
  | .function id parameters body scope, h =>
    .function id parameters body fun w hw => h w (.closure .self hw)
  | .builtin b, _ => .builtin b
  | .returned id v, h => nomatch h _ .self
  | .error id fault, h => nomatch h _ .self
termination_by v => sizeOf v
decreasing_by
  · have := List.sizeOf_lt_of_mem hv
    simp only [Value.array.sizeOf_spec]
    omega
  all_goals
    have := List.sizeOf_lt_of_mem he
    obtain ⟨k, v⟩ := e
    simp only [Value.hash.sizeOf_spec, Prod.mk.sizeOf_spec] at this ⊢
    omega

/-- No signal is inside of a value exactly if it is plain, for the scopes from which no signal
can be reached. -/
theorem signalFreeValue_iff {v : Value} : s.SignalFreeValue v ↔ v.Plain s.SignalFree :=
  ⟨plain_of_signalFreeValue v, signalFreeValue_of_plain s.plain_signalFree⟩

end Store

/-! ### What comes of a tree -/

/-- What may come of a tree: no value, a value without signals, an error, or a `return` around a
value without signals. -/
inductive Store.Result (s : Store) : Option Value → Prop
  | nothing : Result s none
  | value {v : Value} (free : s.SignalFreeValue v) : Result s (some v)
  | error (id : Identity) (fault : Fault) : Result s (some (.error id fault))
  | returned (id : Identity) {v : Value} (free : s.SignalFreeValue v) :
      Result s (some (.returned id v))

/-- A `return` on its way out. -/
def Value.isReturned : Value → Bool
  | returned .. => true
  | _ => false

/-- The scope that a function was made in. -/
def Value.closure? : Value → Option ScopeId
  | function _ _ _ scope => some scope
  | _ => none

theorem Value.Plain.isReturned {L : ScopeId → Prop} {v : Value} (h : v.Plain L) :
    v.isReturned = false := by
  cases h <;> rfl

variable {L : ScopeId → Prop} {α β : Type}

/-- The store behind an evaluation is plain if that of the evaluation with exceptions is. -/
theorem Agrees.plain_after {c : Channel α β} {e : Evaluation β} {t : Throwing α} {s : Store}
    (h : Agrees L c (e s) (t s)) : (e.after s).Plain L := by
  unfold Evaluation.after
  cases ht : t s with
  | ok a s' =>
    rw [ht] at h
    rw [h.1]
    exact h.2.1
  | error interruption s' =>
    rw [ht] at h
    cases interruption with
    | stopped why =>
      rw [h.1]
      exact h.2
    | failed id fault =>
      rw [h.1]
      exact h.2
    | returned id v =>
      rw [h.1]
      exact h.2.1

/-- What comes of a tree is what the evaluation with exceptions gives or throws. -/
theorem Agrees.result {r : EStateM.Result Stop Store (Option Value)}
    {tr : EStateM.Result Interruption Store (Option Value)} (h : Agrees L (.maybe L) r tr)
    {o : Option Value} {s : Store} (hr : r = .ok o s) : s.Result o := by
  cases tr with
  | ok a s' =>
    obtain ⟨he, hs, ha⟩ := h
    cases he.symm.trans hr
    cases a with
    | none => exact .nothing
    | some v => exact .value (Store.signalFreeValue_of_plain hs (ha v rfl))
  | error interruption s' =>
    cases interruption with
    | stopped why => cases h.1.symm.trans hr
    | failed id fault =>
      cases h.1.symm.trans hr
      exact .error id fault
    | returned id v =>
      obtain ⟨he, hs, hv⟩ := h
      cases he.symm.trans hr
      exact .returned id (Store.signalFreeValue_of_plain hs hv)

/-! ### Where a `return` ends -/

/-- No `return` is thrown out of an evaluation. -/
def Throwing.CatchesReturn (t : Throwing α) : Prop :=
  ∀ (s s' : Store) (id : Identity) (v : Value), t s ≠ .error (.returned id v) s'

namespace Throwing

theorem catchesReturn_pure (a : α) : CatchesReturn (pure a) := by
  intro s s' id v h
  cases h

theorem catchesReturn_lift (e : Evaluation α) : CatchesReturn (lift e) := by
  intro s s' id v h
  unfold lift at h
  split at h <;> cases h

theorem catchesReturn_raise (fault : Fault) : CatchesReturn (raise fault : Throwing α) := by
  intro s s' id v h
  cases h

theorem CatchesReturn.bind {t : Throwing α} {k : α → Throwing β} (ht : CatchesReturn t)
    (hk : ∀ a, CatchesReturn (k a)) : CatchesReturn (t >>= k) := by
  intro s s' id v h
  simp only [Bind.bind, EStateM.bind] at h
  cases hr : t s with
  | ok a s₁ =>
    rw [hr] at h
    exact hk a s₁ s' id v h
  | error interruption s₁ =>
    rw [hr] at h
    cases h
    exact ht s s' id v hr

theorem CatchesReturn.map {t : Throwing α} (f : α → β) (ht : CatchesReturn t) :
    CatchesReturn (f <$> t) := by
  rw [← bind_pure_comp]
  exact ht.bind fun _ => catchesReturn_pure _

theorem catchesReturn_catchReturn (give : Value → α) (t : Throwing α) :
    CatchesReturn (catchReturn give t) := by
  intro s s' id v h
  change catchReturn give (fun _ => t s) s = _ at h
  cases hr : t s with
  | ok a s₁ =>
    rw [hr] at h
    cases h
  | error interruption s₁ =>
    rw [hr] at h
    cases interruption <;> cases h

theorem catchesReturn_onOne {f : Value → Throwing Value} (hf : ∀ v, CatchesReturn (f v))
    (vs : List Value) : CatchesReturn (onOne f vs) := by
  unfold onOne
  split
  · exact hf _
  · exact catchesReturn_raise _

theorem catchesReturn_onArray (b : Builtin) {f : List Value → Throwing Value}
    (hf : ∀ vs, CatchesReturn (f vs)) (v : Value) : CatchesReturn (onArray b f v) := by
  unfold onArray
  split
  · exact hf _
  · exact catchesReturn_raise _

theorem catchesReturn_applyBuiltin (depth : Nat) (b : Builtin) (vs : List Value) :
    CatchesReturn (applyBuiltin depth b vs) := by
  cases b with
  | first =>
    exact catchesReturn_onOne (catchesReturn_onArray _ fun _ => catchesReturn_pure _) vs
  | last =>
    exact catchesReturn_onOne (catchesReturn_onArray _ fun _ => catchesReturn_pure _) vs
  | len =>
    refine catchesReturn_onOne (fun v => ?_) vs
    unfold length
    split
    · exact catchesReturn_pure _
    · exact catchesReturn_pure _
    · exact catchesReturn_raise _
  | push =>
    change CatchesReturn (pushOnto vs)
    unfold pushOnto
    split
    · exact (catchesReturn_lift _).bind fun _ => catchesReturn_pure _
    · exact catchesReturn_raise _
    · exact catchesReturn_raise _
  | puts => exact catchesReturn_lift _
  | rest =>
    exact catchesReturn_onOne (catchesReturn_onArray _ fun _ => catchesReturn_lift _) vs

/-- A `return` does not leave the function that was called. -/
theorem catchesReturn_apply (eval : Evaluator) (depth : Nat) (callee : Value)
    (arguments : List Value) : CatchesReturn (apply eval depth callee arguments) := by
  cases callee with
  | function id parameters body closure =>
    exact (catchesReturn_lift _).bind fun _ => catchesReturn_catchReturn _ _
  | builtin b => exact catchesReturn_applyBuiltin depth b arguments
  | _ => exact catchesReturn_raise _

/-- A `return` does not leave a program. -/
theorem catchesReturn_program (depth : Nat) (statements : List Node) (scope : ScopeId) :
    CatchesReturn (eval depth (.program statements) scope) := by
  cases depth with
  | zero =>
    intro s s' id v h
    cases h
  | succ depth => exact catchesReturn_catchReturn _ _

end Throwing

/-- What comes of a tree out of which no `return` is thrown is none. -/
theorem Agrees.not_returned {r : EStateM.Result Stop Store (Option Value)}
    {t : Throwing (Option Value)} {s : Store} (h : Agrees L (.maybe L) r (t s))
    (ht : t.CatchesReturn) {o : Option Value} {s' : Store} (hr : r = .ok o s') :
    o.any Value.isReturned = false := by
  cases htr : t s with
  | ok a s₁ =>
    rw [htr] at h
    obtain ⟨he, -, ha⟩ := h
    cases he.symm.trans hr
    cases a with
    | none => rfl
    | some v => exact (ha v rfl).isReturned
  | error interruption s₁ =>
    rw [htr] at h
    cases interruption with
    | stopped why => cases h.1.symm.trans hr
    | failed id fault =>
      cases h.1.symm.trans hr
      rfl
    | returned id v => exact absurd htr (ht s s₁ id v)

/-! ### Texts that are run -/

/-- The store behind texts that are run one after another in one scope. -/
def runAll (depth : Nat) (texts : List String) (scope : ScopeId) (s : Store) : Store :=
  texts.foldl (fun t text => (run depth text scope t).2) s

theorem runAll_cons (depth : Nat) (text : String) (texts : List String) (scope : ScopeId)
    (s : Store) : runAll depth (text :: texts) scope s =
      runAll depth texts scope (run depth text scope s).2 := rfl

/-- A text that is run leaves the store as its program does, or as it was. -/
theorem snd_run (depth : Nat) (text : String) (scope : ScopeId) (s : Store) :
    (run depth text scope s).2 = s ∨ ∃ p, parse depth text = some p ∧ p.complaints = [] ∧
      (run depth text scope s).2 = (Evaluation.eval depth p.program scope).after s := by
  cases hp : parse depth text with
  | none => exact .inl (congrArg Prod.snd (run_of_none hp scope s))
  | some p =>
    by_cases hc : p.complaints = []
    · refine .inr ⟨p, rfl, hc, ?_⟩
      rw [run_of_clean hp hc, Evaluation.outcome, Evaluation.after]
      cases Evaluation.eval depth p.program scope s <;> rfl
    · exact .inl (congrArg Prod.snd (run_of_complaints hp hc scope s))

/-- A text that comes to a result was read without complaints, and its program gave that
result. -/
theorem eval_of_run {depth : Nat} {text : String} {scope : ScopeId} {s t : Store}
    {o : Option Value} (h : run depth text scope s = (.finished o, t)) :
    ∃ ns, Evaluation.eval depth (.program ns) scope s = .ok o t := by
  obtain ⟨p, hp, hc, hr⟩ := eval_of_finished h
  obtain ⟨ns, hns, -⟩ := reads_of_parse hp hc
  exact ⟨ns, hns ▸ hr⟩

/-! ### Sessions -/

section Sessions

variable {depth : Nat} {scope i : ScopeId} {s : Store}

/-- A scope that is yet to be made leads to nothing. -/
theorem signalFree_of_size_le (h : s.size ≤ i) : s.SignalFree i := s.plain_signalFree.fresh h

/-- After a tree was evaluated where no signal can be reached, the invariant still holds of the
scopes from which none could be reached before. -/
theorem plain_after_eval (n : Node) (h : s.SignalFree scope) :
    ((Evaluation.eval depth n scope).after s).Plain s.SignalFree :=
  (follows_eval depth n scope h s s.plain_signalFree).plain_after

theorem signalFree_after_eval (n : Node) (h : s.SignalFree scope) (hi : s.SignalFree i) :
    ((Evaluation.eval depth n scope).after s).SignalFree i :=
  Store.signalFree_iff.mpr ⟨s.SignalFree, hi, plain_after_eval n h⟩

theorem signalFree_run (text : String) (h : s.SignalFree scope) (hi : s.SignalFree i) :
    (run depth text scope s).2.SignalFree i := by
  rcases snd_run depth text scope s with heq | ⟨p, -, -, heq⟩
  · rw [heq]
    exact hi
  · rw [heq]
    exact signalFree_after_eval p.program h hi

/-- Signals stay out of reach over a whole session. -/
theorem signalFree_runAll (texts : List String) (h : s.SignalFree scope) (hi : s.SignalFree i) :
    (runAll depth texts scope s).SignalFree i := by
  induction texts generalizing s with
  | nil => exact hi
  | cons text texts ih =>
    rw [runAll_cons]
    exact ih (signalFree_run text h h) (signalFree_run text h hi)

/-- A call gives a value without signals or an error, if no signal is in its arguments and none
can be reached from the scope of the function. -/
theorem agrees_apply (depth depth' : Nat) {callee : Value} {arguments : List Value}
    (hcallee : ∀ i ∈ callee.closure?, s.SignalFree i)
    (harguments : ∀ v ∈ arguments, s.SignalFreeValue v) :
    Agrees s.SignalFree (.maybe s.SignalFree)
      ((some <$> Evaluation.apply (Evaluation.eval depth) depth' callee arguments) s)
      ((some <$> Throwing.apply (Throwing.eval depth) depth' callee arguments) s) := by
  have hargs : ∀ v ∈ arguments, v.Plain s.SignalFree := fun v hv =>
    Store.plain_of_signalFreeValue v (harguments v hv)
  refine Follows.map_some ?_ s s.plain_signalFree
  cases callee with
  | function id parameters body closure =>
    exact follows_apply (follows_eval depth) depth'
      (.function id parameters body (hcallee closure rfl)) hargs
  | builtin b => exact follows_applyBuiltin depth' b hargs
  | _ => exact .raise _

end Sessions

/-- **Signals never become data.**  Where no signal can be reached from a scope and a tree is
evaluated there, afterwards none can be reached from any scope from which none could be reached
before, nor from a new one, and none is inside of what comes of the tree.  Nor is one inside of
what comes of a call.  No `return` comes out of a program, of a call or of a text that is run.  So
signals stay out of reach over a whole session. -/
theorem signals_never_data :
    (∀ (depth : Nat) (n : Node) (scope : ScopeId) (s : Store), s.SignalFree scope →
      (∀ i, s.SignalFree i ∨ s.size ≤ i →
        ((Evaluation.eval depth n scope).after s).SignalFree i) ∧
      ∀ o t, Evaluation.eval depth n scope s = .ok o t → t.Result o) ∧
    (∀ (depth : Nat) (ns : List Node) (scope : ScopeId) (s t : Store) (o : Option Value),
      s.SignalFree scope → Evaluation.eval depth (.program ns) scope s = .ok o t →
      o.any Value.isReturned = false) ∧
    (∀ (depth depth' : Nat) (callee : Value) (arguments : List Value) (s t : Store) (v : Value),
      (∀ i ∈ callee.closure?, s.SignalFree i) → (∀ w ∈ arguments, s.SignalFreeValue w) →
      Evaluation.apply (Evaluation.eval depth) depth' callee arguments s = .ok v t →
      t.Result (some v) ∧ v.isReturned = false) ∧
    (∀ (depth : Nat) (text : String) (scope : ScopeId) (s t : Store) (o : Option Value),
      s.SignalFree scope → run depth text scope s = (.finished o, t) →
      o.any Value.isReturned = false) ∧
    ∀ (depth : Nat) (texts : List String) (scope : ScopeId) (s : Store), s.SignalFree scope →
      ∀ i, s.SignalFree i ∨ s.size ≤ i → (runAll depth texts scope s).SignalFree i := by
  have hprogram : ∀ (depth : Nat) (ns : List Node) (scope : ScopeId) (s t : Store)
      (o : Option Value), s.SignalFree scope →
      Evaluation.eval depth (.program ns) scope s = .ok o t → o.any Value.isReturned = false := by
    intro depth ns scope s t o h hr
    have hagree := follows_eval depth (.program ns) scope h s s.plain_signalFree
    exact hagree.not_returned (Throwing.catchesReturn_program depth ns scope) hr
  refine ⟨?_, hprogram, ?_, ?_, ?_⟩
  · intro depth n scope s h
    refine ⟨fun i hi => ?_, fun o t hr => ?_⟩
    · exact signalFree_after_eval n h (hi.elim id signalFree_of_size_le)
    · exact (follows_eval depth n scope h s s.plain_signalFree).result hr
  · intro depth depth' callee arguments s t v hcallee harguments hr
    have hagree := agrees_apply depth depth' hcallee harguments
    have hsome : (some <$> Evaluation.apply (Evaluation.eval depth) depth' callee arguments) s =
        .ok (some v) t := by
      simp only [Functor.map, EStateM.map, hr]
    refine ⟨hagree.result hsome, ?_⟩
    exact hagree.not_returned ((Throwing.catchesReturn_apply _ _ _ _).map some) hsome
  · intro depth text scope s t o h hr
    obtain ⟨ns, hns⟩ := eval_of_run hr
    exact hprogram depth ns scope s t o h hns
  · intro depth texts scope s h i hi
    exact signalFree_runAll texts h (hi.elim id signalFree_of_size_le)

/-- A `return` of an array, alone, in a program and in a function, and a session of two texts. -/
theorem signals_never_data_return :
    (Store.empty.addScope none).SignalFree 0 ∧
    (Evaluation.eval 4 (.returnStatement default (.array default [.integer default 1])) 0
        (Store.empty.addScope none) =
      .ok (some (.returned 1 (.array 0 [.integer 1]))) (Store.empty.addScope none).issue.issue ∧
      (Store.empty.addScope none).issue.issue.Result
        (some (.returned 1 (.array 0 [.integer 1])))) ∧
    (Evaluation.eval 5
        (.program [.returnStatement default (.array default [.integer default 1])]) 0
        (Store.empty.addScope none) =
      .ok (some (.array 0 [.integer 1])) (Store.empty.addScope none).issue.issue ∧
      (some (Value.array 0 [.integer 1])).any Value.isReturned = false) ∧
    (∃ t, Evaluation.apply (Evaluation.eval 4) 4
        (.function 7 [.identifier default "x"]
          (.block default [.returnStatement default (.integer default 5)]) 0)
        [.integer 3] (Store.empty.addScope none) = .ok (.integer 5) t ∧
      t.Result (some (.integer 5)) ∧ (Value.integer 5).isReturned = false) ∧
    (∃ o t, run 9 "return 5; 6" 0 (Store.empty.addScope none) = (.finished o, t) ∧
      o.any Value.isReturned = false) ∧
    (runAll 9 ["let x = [1];", "return x"] 0 (Store.empty.addScope none)).SignalFree 0 := by
  have hs : (Store.empty.addScope none).SignalFree 0 := by
    refine Store.signalFree_iff.mpr ⟨fun _ => True, trivial, ?_⟩
    exact (Store.plain_empty fun _ => trivial).addScope (by simp)
  have hthree : (Store.empty.addScope none).SignalFreeValue (.integer 3) :=
    Store.signalFreeValue_iff.mpr (.integer 3)
  have heval : Evaluation.eval 4
      (.returnStatement default (.array default [.integer default 1])) 0
      (Store.empty.addScope none) = .ok (some (.returned 1 (.array 0 [.integer 1])))
        (Store.empty.addScope none).issue.issue := rfl
  have hprogram : Evaluation.eval 5
      (.program [.returnStatement default (.array default [.integer default 1])]) 0
      (Store.empty.addScope none) =
        .ok (some (.array 0 [.integer 1])) (Store.empty.addScope none).issue.issue := rfl
  have happly : ∃ t, Evaluation.apply (Evaluation.eval 4) 4
      (.function 7 [.identifier default "x"]
        (.block default [.returnStatement default (.integer default 5)]) 0)
      [.integer 3] (Store.empty.addScope none) = .ok (.integer 5) t := ⟨_, rfl⟩
  have hrun : (match (run 9 "return 5; 6" 0 (Store.empty.addScope none)).1 with
      | .finished _ => true
      | _ => false) = true := by
    decide +kernel
  obtain ⟨t, happly⟩ := happly
  refine ⟨hs, ⟨heval, ?_⟩, ⟨hprogram, ?_⟩, ⟨t, happly, ?_⟩, ?_, ?_⟩
  · exact (signals_never_data.1 4 _ 0 _ hs).2 _ _ heval
  · exact signals_never_data.2.1 5 _ 0 _ _ _ hs hprogram
  · refine signals_never_data.2.2.1 4 4 _ _ _ _ _ (fun i hi => ?_) (fun w hw => ?_) happly
    · exact Option.some.inj hi ▸ hs
    · exact List.mem_singleton.mp hw ▸ hthree
  · cases hr : run 9 "return 5; 6" 0 (Store.empty.addScope none) with
    | mk outcome t =>
      rw [hr] at hrun
      cases outcome with
      | finished o => exact ⟨o, t, rfl, signals_never_data.2.2.2.1 9 _ 0 _ t o hs hr⟩
      | refused complaints => cases hrun
      | stopped why => cases hrun
  · exact signals_never_data.2.2.2.2 9 _ 0 _ hs 0 (.inl hs)

end Monkey
