import Mathlib.Data.List.TakeWhile
import Monkey.Session.Basic

/-!
# Entries, one after another

What a session makes of an entry depends on whether the entry is blank, a command or a program.
Between entries a session is settled: nothing is left in its store that was printed.

## Main definitions

* `Session.behind` — the session behind some entries.
* `Session.Settled` — nothing is left that was printed.

## Main results

* `Session.enterAll_append` — entries are taken one after another.
* `Session.Settled.behind` — sessions are settled between entries.
-/

namespace Monkey.Session

variable {depth : Nat} {entry : String} {t : Session}

/-! ### An entry -/

theorem enter_of_blank (h : (normalize entry).toList.all Text.isBlank) :
    t.enter depth (some entry) = ({}, t) := if_pos h

/-- A command is not blank, for it begins with a slash. -/
theorem not_blank_of_command {text : String} {c : Command} (h : Command.ofEntry? text = some c) :
    ¬text.toList.all Text.isBlank := by
  intro hblank
  have hleft : Text.stripLeft text.toList = [] :=
    List.dropWhile_eq_nil_iff.mpr (List.all_eq_true.mp hblank)
  have hstrip : Text.strip text.toList = [] := by
    rw [Text.strip, hleft]
    rfl
  rw [Command.ofEntry?, hstrip] at h
  cases h

theorem enter_of_command {c : Command} (h : Command.ofEntry? (normalize entry) = some c) :
    t.enter depth (some entry) = t.command c := by
  simp only [enter]
  rw [if_neg (not_blank_of_command h), h]

theorem enter_of_program (hblank : ¬(normalize entry).toList.all Text.isBlank)
    (h : Command.ofEntry? (normalize entry) = none) :
    t.enter depth (some entry) = t.program depth (normalize entry) := by
  simp only [enter]
  rw [if_neg hblank, h]

/-! ### Programs -/

theorem echoOf_of_off (h : t.echo = false) (text : String) : t.echoOf depth text = .ok "" := by
  rw [echoOf, h]
  rfl

/-- With complaints the echo is the report about them. -/
theorem echoOf_of_complaints (h : t.echo = true) {text : String} {p : Parsed}
    (hp : parse depth text = some p) (hcomplaints : p.complaints ≠ []) :
    t.echoOf depth text = .error (.line (Report.complaints p.complaints)) := by
  simp only [echoOf, h, hp, List.isEmpty_eq_false_iff.mpr hcomplaints]
  rfl

/-! ### Entries -/

/-- The session behind some entries. -/
def behind (depth : Nat) (entries : List (Option String)) (t : Session) : Session :=
  entries.foldl (fun t entry => (t.enter depth entry).2) t

theorem enterAll_cons (entry : Option String) (entries : List (Option String)) (t : Session) :
    enterAll depth (entry :: entries) t =
      (t.enter depth entry).1 :: enterAll depth entries (t.enter depth entry).2 := rfl

theorem enterAll_append (entries entries' : List (Option String)) (t : Session) :
    enterAll depth (entries ++ entries') t =
      enterAll depth entries t ++ enterAll depth entries' (behind depth entries t) := by
  induction entries generalizing t with
  | nil => rfl
  | cons entry entries ih => exact congrArg (_ :: ·) (ih _)

/-! ### Between entries -/

/-- Nothing is left in the store that was printed. -/
def Settled (t : Session) : Prop := t.store.printed = ""

/-- What was printed is forgotten, but there is nothing. -/
theorem Settled.clearPrinted (h : t.Settled) : t.store.clearPrinted = t.store := by
  rw [Store.clearPrinted, ← h]

theorem settled_start (echo : Bool) (trace : Trace) : (start echo trace).Settled := rfl

theorem Settled.command (h : t.Settled) (c : Command) : (t.command c).2.Settled := by
  cases c with
  | clear | reset | unknown => exact h
  | trace word | echo word =>
    simp only [Session.command]
    split
    · exact h
    · exact h

theorem Settled.program (h : t.Settled) (text : String) : (t.program depth text).2.Settled := by
  unfold Session.program
  split
  · exact h
  · rfl

theorem Settled.enter (h : t.Settled) (entry : Option String) :
    (t.enter depth entry).2.Settled := by
  cases entry with
  | none => exact h
  | some entry =>
    simp only [Session.enter]
    split
    · exact h
    · split
      · exact h.command _
      · exact h.program _

/-- **Sessions are settled between entries.** -/
theorem Settled.behind (h : t.Settled) (depth : Nat) (entries : List (Option String)) :
    (behind depth entries t).Settled := by
  induction entries generalizing t with
  | nil => exact h
  | cons entry entries ih => exact ih (h.enter entry)

end Monkey.Session
