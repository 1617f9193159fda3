import Monkey.CommandLine
import Monkey.Proofs.Evaluation.Regular

/-!
# How a command ends

A text that is listed is listed to its end.  One that is outlined or run is refused if the parser
complains, and given up if it goes too deep, which is the only thing that stops a text that the
parser has read.  Otherwise an outline is a success, and a run is one unless its value is an error.

## Main definitions

* `CommandLine.outcome` — what comes of a text where nothing is bound.
* `CommandLine.Refused`, `CommandLine.TooDeepToOutline`, `CommandLine.TooDeepToRun`,
  `CommandLine.GivesError` — the ways in which a text can fail.
* `CommandLine.Fails` — how it fails where the arguments ask for something.

## Main results

* `CommandLine.code_outlined_iff`, `CommandLine.code_ran_iff` — when an outline or a run fails.
* `CommandLine.code_execute_iff` — when a command fails.
-/

namespace Monkey.CommandLine

/-! ### Ways to fail -/

/-- The outcome of a text where nothing is bound. -/
def outcome (depth : Nat) (text : String) : Outcome :=
  (run depth text Store.empty.size (Store.empty.addScope none)).1

/-- The parser complains about a text. -/
def Refused (depth : Nat) (text : String) : Prop :=
  ∃ p, parse depth text = some p ∧ p.complaints ≠ []

/-- A text is too deep to be parsed, or its tree to be outlined. -/
def TooDeepToOutline (depth : Nat) (text : String) : Prop :=
  parse depth text = none ∨
    ∃ p, parse depth text = some p ∧ p.complaints = [] ∧
      p.program.outline? depth = .error .tooDeep

/-- A text is too deep to be parsed or evaluated, or its value to be shown. -/
def TooDeepToRun (depth : Nat) (text : String) : Prop :=
  outcome depth text = .stopped .tooDeep ∨
    ∃ v, outcome depth text = .finished (some v) ∧ v.inspect? depth = .error .tooDeep

/-- A text is evaluated to an error. -/
def GivesError (depth : Nat) (text : String) : Prop :=
  ∃ v, outcome depth text = .finished (some v) ∧ v.kind = .error

/-- What makes a command fail on a text, with an outline or a listing of tokens asked for or not.
A listing does not fail. -/
def Fails (depth : Nat) (outline tokens : Prop) (text : String) : Prop :=
  ¬ tokens ∧ (Refused depth text ∨ (outline ∧ TooDeepToOutline depth text) ∨
    (¬ outline ∧ (TooDeepToRun depth text ∨ GivesError depth text)))

variable {depth : Nat} {trace : Trace} {text : String}

/-! ### Outcomes -/

/-- **What comes of a text.**  It is refused with complaints only; without them, only the depth
stops it, and its value is regular. -/
theorem outcome_cases (depth : Nat) (text : String) :
    (Refused depth text ∧ ∃ cs, outcome depth text = .refused cs) ∨
    (¬ Refused depth text ∧ (outcome depth text = .stopped .tooDeep ∨
      ∃ o, outcome depth text = .finished o ∧ ∀ v ∈ o, v.Regular)) := by
  cases hp : parse depth text with
  | none =>
    rw [outcome, run_of_none hp]
    exact .inr ⟨by simp [Refused, hp], .inl rfl⟩
  | some p =>
    by_cases hc : p.complaints = []
    · refine .inr ⟨by simp [Refused, hp, hc], ?_⟩
      obtain ⟨-, -, hregular⟩ := regular_of_parse hp
      have hs : (Store.empty.addScope none).Binds Value.Regular := Store.binds_empty.addScope none
      have hensures := Evaluation.regularly_eval depth p.program Store.empty.size hregular _ hs
      rw [outcome, run_of_clean hp hc, Evaluation.outcome]
      split at hensures
      · next o t hr =>
        rw [hr]
        exact .inr ⟨o, rfl, hensures.2⟩
      · next why t hr =>
        rw [hr]
        exact .inl (congrArg Outcome.stopped hensures)
    · rw [outcome, run_of_complaints hp hc]
      exact .inl ⟨⟨p, hp, hc⟩, _, rfl⟩

/-! ### Commands -/

theorem code_eq_zero_iff {s : Status} : s.code = 0 ↔ ¬ s.code = 1 := by
  cases s <;> simp [Status.code]

/-- An outline fails if it is refused or goes too deep. -/
theorem code_outlined_iff : (outlined depth trace text).status.code = 1 ↔
    Refused depth text ∨ TooDeepToOutline depth text := by
  cases hp : parse depth text with
  | none => simp [outlined, hp, halted, Status.code, TooDeepToOutline]
  | some p =>
    by_cases hc : p.complaints = []
    · obtain ⟨-, -, hregular⟩ := regular_of_parse hp
      cases ho : p.program.outline? depth with
      | ok o => simp [outlined, hp, hc, ho, Status.code, Refused, TooDeepToOutline]
      | error why =>
        obtain rfl : why = .tooDeep := hregular.onlyDepthStops_outline.1 depth why ho
        simp [outlined, hp, hc, ho, halted, Status.code, TooDeepToOutline]
    · simp [outlined, hp, hc, refused, Status.code, Refused]

/-- The status of a run, by the outcome of the text. -/
theorem status_ran : (ran depth trace text).status =
    match outcome depth text with
    | .refused _ | .stopped _ => .failure
    | .finished none => .success
    | .finished (some v) =>
      match v.inspect? depth with
      | .ok _ => if isError v then .failure else .success
      | .error _ => .failure := by
  unfold ran outcome
  obtain ⟨o, s⟩ := run depth text Store.empty.size (Store.empty.addScope none)
  cases o with
  | refused | stopped => rfl
  | finished o =>
    cases o with
    | none => rfl
    | some v =>
      dsimp only
      cases v.inspect? depth <;> rfl

/-- A run fails if it is refused, goes too deep or gives an error. -/
theorem code_ran_iff : (ran depth trace text).status.code = 1 ↔
    Refused depth text ∨ TooDeepToRun depth text ∨ GivesError depth text := by
  rw [status_ran]
  rcases outcome_cases depth text with ⟨hrefused, cs, ho⟩ | ⟨hrefused, ho | ⟨o, ho, hregular⟩⟩
  · simp [ho, hrefused, Status.code]
  · simp [ho, TooDeepToRun, Status.code]
  · cases o with
    | none => simp [ho, hrefused, TooDeepToRun, GivesError, Status.code]
    | some v =>
      cases hshown : v.inspect? depth with
      | ok shown =>
        by_cases herror : v.kind = .error
        · simp [ho, hshown, herror, isError, GivesError, Status.code]
        · simp [ho, hshown, herror, hrefused, isError, TooDeepToRun, GivesError, Status.code]
      | error why =>
        have honly := (hregular v rfl).onlyDepthStops_inspect
        obtain rfl : why = .tooDeep := honly.1 depth why hshown
        simp [ho, hshown, TooDeepToRun, Status.code]

/-- **When a command fails.** -/
theorem code_execute_iff {a : Arguments} : (execute depth trace a text).status.code = 1 ↔
    Fails depth a.outline a.tokens text := by
  unfold execute Fails
  cases a.tokens with
  | true => simp [listing, Status.code]
  | false =>
    cases a.outline with
    | true => simpa using code_outlined_iff
    | false => simpa using code_ran_iff

end Monkey.CommandLine
