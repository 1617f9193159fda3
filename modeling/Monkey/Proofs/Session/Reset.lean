import Monkey.Proofs.Evaluation.Ahead
import Monkey.Proofs.Session.Entries

/-!
# A session that begins anew

A reset gives the session a scope without bindings.  The scopes from before stay in the store, and
the identities that were given out stay so, but no later entry can tell: the session goes on like
a new one with the same switches.  So two sessions are compared, of which one is ahead of the
other one by what it had before.  Each entry has the same reply in both, and leaves the one ahead
by as much as it was.

## Main definitions

* `Session.Ahead` — one session is ahead of another one, and the switches are the same.

## Main results

* `Session.Ahead.enter`, `Session.Ahead.enterAll` — one entry, and all entries.
* `Session.reset_forgets` — a reset forgets the session.
-/

namespace Monkey.Session

/-- A session whose store has `k` identities and `m` scopes more than the one of another session,
with the same switches.  Of the variable for traces it matters only if it turns them on. -/
structure Ahead (k m : Nat) (t t' : Session) : Prop where
  store : t.store.Ahead k m t'.store
  scope : t.scope = m + t'.scope
  echo : t.echo = t'.echo
  trace : t.trace.enabled = t'.trace.enabled

namespace Ahead

variable {k m : Nat} {t t' : Session}

/-! ### Programs -/

theorem stopped (h : t.Ahead k m t') (out : String) (why : Stop) :
    t.stopped out why = t'.stopped out why := by
  unfold Session.stopped
  rw [h.trace]

theorem echoOf (h : t.Ahead k m t') (depth : Nat) (text : String) :
    t.echoOf depth text = t'.echoOf depth text := by
  unfold Session.echoOf
  rw [h.echo]
  simp only [h.stopped]

/-- Outcomes that are alike have the same reply. -/
theorem replyTo (h : t.Ahead k m t') {R : Links} (depth : Nat) (out : String)
    {o o' : Outcome} (ho : o.Like R o') : t.replyTo depth out o = t'.replyTo depth out o' := by
  cases ho with
  | refused complaints => rfl
  | stopped why => exact h.stopped out why
  | finished results =>
    cases results with
    | none => rfl
    | some hv =>
      simp only [Session.replyTo, hv.inspect?]
      split
      · rfl
      · exact h.stopped out _

theorem program (h : t.Ahead k m t') (depth : Nat) (text : String) :
    (t.program depth text).1 = (t'.program depth text).1 ∧
      (t.program depth text).2.Ahead k m (t'.program depth text).2 := by
  unfold Session.program
  rw [h.echoOf]
  split
  · exact ⟨rfl, h⟩
  · next echo _ =>
    obtain ⟨houtcome, hstore⟩ := h.store.run depth text t'.scope
    rw [h.scope]
    constructor
    · dsimp only
      rw [h.replyTo _ _ houtcome, hstore.printed]
    · exact ⟨hstore.clearPrinted, rfl, h.echo, h.trace⟩

/-! ### Commands -/

/-- The switches are read and set alike, and another reset adds a scope to both stores. -/
theorem command (h : t.Ahead k m t') (c : Command) :
    (t.command c).1 = (t'.command c).1 ∧ (t.command c).2.Ahead k m (t'.command c).2 := by
  cases c with
  | clear | unknown => exact ⟨rfl, h⟩
  | reset => exact ⟨rfl, h.store.addScope .none, h.store.size, h.echo, h.trace⟩
  | trace word =>
    simp only [Session.command, h.trace]
    split
    · exact ⟨rfl, h⟩
    · exact ⟨rfl, h.store, h.scope, h.echo, rfl⟩
  | echo word =>
    simp only [Session.command, h.echo]
    split
    · exact ⟨rfl, h⟩
    · exact ⟨rfl, h.store, h.scope, rfl, h.trace⟩

/-! ### Entries -/

/-- An entry has the same reply in both sessions, and the one stays ahead. -/
theorem enter (h : t.Ahead k m t') (depth : Nat) (entry : Option String) :
    (t.enter depth entry).1 = (t'.enter depth entry).1 ∧
      (t.enter depth entry).2.Ahead k m (t'.enter depth entry).2 := by
  cases entry with
  | none => exact ⟨rfl, h⟩
  | some entry =>
    simp only [Session.enter]
    split
    · exact ⟨rfl, h⟩
    · split
      · exact h.command _
      · exact h.program depth _

theorem enterAll (h : t.Ahead k m t') (depth : Nat) (entries : List (Option String)) :
    Session.enterAll depth entries t = Session.enterAll depth entries t' := by
  induction entries generalizing t t' with
  | nil => rfl
  | cons entry entries ih =>
    obtain ⟨hreply, hahead⟩ := h.enter depth entry
    exact congrArg₂ List.cons hreply (ih hahead)

end Ahead

/-! ### A reset -/

/-- Behind a reset, a session is ahead of a new one by all that it had. -/
theorem ahead_of_reset {t : Session} (h : t.Settled) {trace : Trace}
    (htrace : trace.enabled = t.trace.enabled) :
    (t.command .reset).2.Ahead t.store.next t.store.size (start t.echo trace) :=
  ⟨.start t.store h, rfl, rfl, htrace.symm⟩

/-- **A reset forgets the session.**  Whatever was entered before, the entries behind a reset have
the replies that they have in a new session with the switches as they are by then. -/
theorem reset_forgets (depth : Nat) (before after : List (Option String)) (line : String)
    (echo : Bool) (trace trace' : Trace)
    (hline : Command.ofEntry? (normalize line) = some .reset)
    (htrace : trace'.enabled = (behind depth before (start echo trace)).trace.enabled) :
    enterAll depth (before ++ some line :: after) (start echo trace) =
      enterAll depth before (start echo trace) ++ .line "Environment reset." ::
        enterAll depth after (start (behind depth before (start echo trace)).echo trace') := by
  have hsettled := (settled_start echo trace).behind depth before
  rw [enterAll_append, ← (ahead_of_reset hsettled htrace).enterAll depth after, enterAll,
    enter_of_command hline]
  rfl

/-- A function and the name that it is called with are there before the reset, and neither is known
any more behind it.  Both switches have been turned on, and stay so. -/
theorem reset_forgets_function :
    let before := [some "let n = 7; let f = fn(x) \x7b let m = n + x; m \x7d;",
      some "/py-traceback on", some "/ast on", some "f(", none, some "f(true)", some "f(n)"]
    let after := [some "f", some "let n = [1]; n == [1]", none, some "/reset", some "n"]
    let s := start false none
    Command.ofEntry? (normalize "\ufeff /reset now") = some .reset ∧
    Trace.enabled (some "yes") = (behind 60 before s).trace.enabled ∧
    (behind 60 before s).echo = true ∧
    (enterAll 60 before s).getLast? = some { out := "f(n)\n14\n" } ∧
    (enterAll 60 after (start true (some "yes"))).head? =
      some { out := "f\nError: identifier not found: f\n" } ∧
    enterAll 60 (before ++ some "\ufeff /reset now" :: after) s =
      enterAll 60 before s ++ .line "Environment reset." ::
        enterAll 60 after (start (behind 60 before s).echo (some "yes")) := by
  intro before after s
  have hline : Command.ofEntry? (normalize "\ufeff /reset now") = some .reset := by
    decide +kernel
  have htrace : Trace.enabled (some "yes") = (behind 60 before s).trace.enabled := by
    decide +kernel
  refine ⟨hline, htrace, by decide +kernel, by decide +kernel, by decide +kernel, ?_⟩
  exact reset_forgets 60 before after _ false none (some "yes") hline htrace

end Monkey.Session
