import Monkey.Proofs.Evaluation.Reach
import Monkey.Proofs.Evaluation.Throwing

/-!
# Evaluations that follow each other

An evaluation with signals follows one that throws if, from every store in which no signal
is found, both leave the same store behind, both give the same result, and what the one
throws is a signal among the results of the other.  How a signal shows depends on what
the results are: a `Channel` says it.

## Main definitions

* `Evaluation.Keeps` — an evaluation leaves the store plain, and gives no signal.
* `Channel` — the results and the signals of an evaluation, as values of one type.
* `Follows` — one evaluation follows another.

## Main results

* `Follows.bind` — two parts in a row follow if each does and the second one hands on the
  signals of the first one.
* `Follows.catchReturn` — the end of a `return`.
-/

namespace Monkey

variable {L : ScopeId → Prop} {α β γ δ : Type}

/-! ### Evaluations that give no signals -/

/-- An evaluation that leaves a plain store plain, whether it stops or not, and gives
results of which `plain` holds. -/
def Evaluation.Keeps (L : ScopeId → Prop) (plain : α → Prop) (e : Evaluation α) : Prop :=
  ∀ s : Store, s.Plain L →
    match e s with
    | .ok a s' => s'.Plain L ∧ plain a
    | .error _ s' => s'.Plain L

namespace Evaluation

variable {plain : α → Prop}

theorem Keeps.pure {a : α} (ha : plain a) : Keeps L plain (Pure.pure a) :=
  fun _ hs => ⟨hs, ha⟩

theorem Keeps.throw (why : Stop) : Keeps L plain (throw why) :=
  fun _ hs => hs

theorem Keeps.bind {plain' : β → Prop} {e : Evaluation α} {k : α → Evaluation β}
    (he : Keeps L plain e) (hk : ∀ a, plain a → Keeps L plain' (k a)) :
    Keeps L plain' (e >>= k) := by
  intro s hs
  have he := he s hs
  simp only [Bind.bind, EStateM.bind]
  cases hr : e s with
  | ok a s' =>
    rw [hr] at he
    exact hk a he.2 s' he.1
  | error why s' =>
    rw [hr] at he
    exact he

theorem Keeps.modify {f : Store → Store} (hf : ∀ s : Store, s.Plain L → (f s).Plain L) :
    Keeps L (fun _ => True) (modify f) :=
  fun s hs => ⟨hf s hs, trivial⟩

theorem keeps_issue : Keeps L (fun _ => True) issue :=
  fun _ hs => ⟨hs.issue, trivial⟩

theorem keeps_printLine (depth : Nat) (v : Value) :
    Keeps L (fun _ => True) (printLine depth v) := by
  unfold printLine
  split
  · exact .modify fun s hs => hs.print _
  · exact .throw _

theorem keeps_bindName (scope : ScopeId) (name : Node) {v : Value} (hv : v.Plain L) :
    Keeps L (fun _ => True) (bindName scope name v) := by
  unfold bindName
  split
  · exact .modify fun s hs => hs.bind scope _ hv
  · exact .pure trivial
  · exact .throw _

theorem keeps_bindNames (scope : ScopeId) {bs : List (Node × Value)}
    (hbs : ∀ b ∈ bs, b.2.Plain L) : Keeps L (fun _ => True) (bindNames scope bs) := by
  induction bs with
  | nil => exact .pure trivial
  | cons b bs ih =>
    obtain ⟨hb, hbs⟩ := List.forall_mem_cons.mp hbs
    exact (keeps_bindName scope b.1 hb).bind fun _ _ => ih hbs

/-- The scope of a call is a new one, so it is among those of the invariant. -/
theorem keeps_enter {closure : ScopeId} (hclosure : L closure) (parameters : List Node)
    {arguments : List Value} (h : ∀ v ∈ arguments, v.Plain L) :
    Keeps L L (enter closure parameters arguments) := by
  have hnew : Keeps L L
      (modifyGet fun s : Store => (s.size, s.addScope (some closure)) : Evaluation ScopeId) :=
    fun s hs =>
      ⟨hs.addScope fun o ho => Option.some.inj ho ▸ hclosure, hs.fresh (Nat.le_refl _)⟩
  refine hnew.bind fun scope hscope => ?_
  refine (keeps_bindNames scope fun b hb => ?_).bind fun _ _ => .pure hscope
  exact h b.2 (List.of_mem_zip hb).2

theorem keeps_printAll (depth : Nat) (vs : List Value) :
    Keeps L (Value.Plain L) (Builtin.printAll depth vs) := by
  induction vs with
  | nil => exact .pure .null
  | cons v vs ih => exact (keeps_printLine depth v).bind fun _ _ => ih

theorem keeps_restOf {elements : List Value} (h : ∀ v ∈ elements, v.Plain L) :
    Keeps L (Value.Plain L) (Builtin.restOf elements) := by
  cases elements with
  | nil => exact .pure .null
  | cons v vs =>
    exact keeps_issue.bind fun id _ => .pure (.array id (List.forall_mem_cons.mp h).2)

end Evaluation

/-! ### Channels -/

/-- How results of type `α` and signals come as values of one type `β`, and of which
results it holds that no signal is inside. -/
structure Channel (α β : Type) where
  result : α → β
  signal : Value → β
  plain : α → Prop

namespace Channel

/-- A result that may be missing, with signals among the results. -/
def maybe (L : ScopeId → Prop) : Channel (Option Value) (Option Value) :=
  ⟨id, some, fun o => ∀ v ∈ o, v.Plain L⟩

/-- A value, with signals among the values. -/
def sure (L : ScopeId → Prop) : Channel Value Value :=
  ⟨id, id, Value.Plain L⟩

/-- Results of some parts, or the first signal in their place. -/
def parts (plain : α → Prop) : Channel α (Except Value α) :=
  ⟨.ok, .error, plain⟩

/-- A channel behind the end of a `return`. -/
def unwrapping (c : Channel α β) : Channel α β :=
  { c with signal := fun v => c.signal v.unwrapped }

end Channel

/-! ### Following -/

/-- The end of an evaluation with signals is that of one that throws. -/
def Agrees (L : ScopeId → Prop) (c : Channel α β) (r : EStateM.Result Stop Store β) :
    EStateM.Result Interruption Store α → Prop
  | .ok a s => r = .ok (c.result a) s ∧ s.Plain L ∧ c.plain a
  | .error (.stopped why) s => r = .error why s ∧ s.Plain L
  | .error (.failed id fault) s => r = .ok (c.signal (.error id fault)) s ∧ s.Plain L
  | .error (.returned id v) s =>
    r = .ok (c.signal (.returned id v)) s ∧ s.Plain L ∧ v.Plain L

/-- From every plain store, an evaluation with signals ends as one that throws does. -/
def Follows (L : ScopeId → Prop) (c : Channel α β) (e : Evaluation β) (t : Throwing α) :
    Prop :=
  ∀ s : Store, s.Plain L → Agrees L c (e s) (t s)

namespace Follows

variable {c : Channel α β} {d : Channel γ δ} {e : Evaluation β} {t : Throwing α}

theorem pure {a : α} (ha : c.plain a) :
    Follows L c (Pure.pure (c.result a)) (Pure.pure a) :=
  fun _ hs => ⟨rfl, hs, ha⟩

theorem stop (why : Stop) : Follows L c (throw why) (throw (.stopped why)) :=
  fun _ hs => ⟨rfl, hs⟩

theorem get_bind {k : Store → Evaluation β} {k' : Store → Throwing α}
    (hk : ∀ s : Store, s.Plain L → Follows L c (k s) (k' s)) :
    Follows L c (get >>= k) (get >>= k') :=
  fun s hs => hk s hs s hs

/-- **Two parts in a row**: the second one follows on what is plain, and hands on every
signal of the first one. -/
theorem bind {k : β → Evaluation δ} {k' : α → Throwing γ} (h : Follows L c e t)
    (hk : ∀ a, c.plain a → Follows L d (k (c.result a)) (k' a))
    (hsignal : ∀ v, v.isSignal = true → k (c.signal v) = Pure.pure (d.signal v)) :
    Follows L d (e >>= k) (t >>= k') := by
  intro s hs
  have h := h s hs
  simp only [Bind.bind, EStateM.bind]
  cases ht : t s with
  | ok a s' =>
    rw [ht] at h
    obtain ⟨he, hs', ha⟩ := h
    rw [he]
    exact hk a ha s' hs'
  | error interruption s' =>
    rw [ht] at h
    -- the second part is not run, or runs on the signal alone
    cases interruption with
    | stopped why =>
      obtain ⟨he, hs'⟩ := h
      rw [he]
      exact ⟨rfl, hs'⟩
    | failed id fault =>
      obtain ⟨he, hs'⟩ := h
      simp only [he, hsignal (.error id fault) rfl]
      exact ⟨rfl, hs'⟩
    | returned id v =>
      obtain ⟨he, hs', hv⟩ := h
      simp only [he, hsignal (.returned id v) rfl]
      exact ⟨rfl, hs', hv⟩

/-- A first part that gives no signals. -/
theorem lift_bind {plain : α → Prop} {e : Evaluation α} {k : α → Evaluation δ}
    {k' : α → Throwing γ} (he : Evaluation.Keeps L plain e)
    (hk : ∀ a, plain a → Follows L d (k a) (k' a)) :
    Follows L d (e >>= k) (Throwing.lift e >>= k') := by
  intro s hs
  have he := he s hs
  simp only [Bind.bind, EStateM.bind, Throwing.lift]
  cases hr : e s with
  | ok a s' =>
    rw [hr] at he
    exact hk a he.2 s' he.1
  | error why s' =>
    rw [hr] at he
    exact ⟨rfl, he⟩

theorem lift {e : Evaluation Value} (he : Evaluation.Keeps L (Value.Plain L) e) :
    Follows L (.sure L) e (Throwing.lift e) := by
  have h : Follows L (.sure L) (e >>= Pure.pure) (Throwing.lift e >>= Pure.pure) :=
    lift_bind he fun v hv => pure (c := .sure L) hv
  rwa [bind_pure, bind_pure] at h

/-- An error that is handed on is one that is thrown. -/
theorem raise_bind (fault : Fault) {k : Value → Evaluation β}
    (hsignal : ∀ v, k v = Pure.pure (c.signal v)) :
    Follows L c (Evaluation.raise fault >>= k) (Throwing.raise fault) :=
  fun s hs => ⟨congrFun (hsignal (.error s.next fault)) s.issue, hs.issue⟩

theorem raise (fault : Fault) :
    Follows L (.sure L) (Evaluation.raise fault) (Throwing.raise fault) := by
  have h : Follows L (.sure L) (Evaluation.raise fault >>= Pure.pure) (Throwing.raise fault) :=
    raise_bind fault fun _ => rfl
  rwa [bind_pure] at h

theorem settle {r : Except Fault Value} (hr : ∀ v, r = .ok v → v.Plain L) :
    Follows L (.sure L) (Evaluation.settle r) (Throwing.settle r) := by
  cases r with
  | ok v => exact pure (c := .sure L) (hr v rfl)
  | error fault => exact raise fault

theorem map_some {e : Evaluation Value} {t : Throwing Value} (h : Follows L (.sure L) e t) :
    Follows L (.maybe L) (some <$> e) (some <$> t) := by
  rw [← bind_pure_comp, ← bind_pure_comp]
  refine h.bind (fun v hv => ?_) fun _ _ => rfl
  exact pure (c := .maybe L) fun w hw => Option.some.inj hw ▸ hv

/-- The end of a `return`: its operand takes the place of the signal. -/
theorem catchReturn {give : Value → α} (h : Follows L c.unwrapping e t)
    (hgive : ∀ v, v.Plain L → c.signal v = c.result (give v) ∧ c.plain (give v)) :
    Follows L c e (Throwing.catchReturn give t) := by
  intro s hs
  have h := h s hs
  -- the catch looks at nothing but the result of what it is put around
  have hcatch : Throwing.catchReturn give t s = Throwing.catchReturn give (fun _ => t s) s := rfl
  rw [hcatch]
  cases ht : t s with
  | ok a s' =>
    rw [ht] at h
    exact h
  | error interruption s' =>
    rw [ht] at h
    cases interruption with
    | stopped why => exact h
    | failed id fault => exact h
    | returned id v =>
      obtain ⟨he, hs', hv⟩ := h
      obtain ⟨hresult, hplain⟩ := hgive v hv
      exact ⟨he.trans (congrArg (EStateM.Result.ok · s') hresult), hs', hplain⟩

end Follows

end Monkey
