import Monkey.Proofs.Session.Entries

/-!
# Entries that leave no trace

Some entries have a reply, or none, and do nothing else: an interruption, a blank entry, a command
that clears the screen or that is not known, a switch with a word that is not one of its words,
and a program that the parser complains about, whether its echo is on or off.  Each leaves the
session as it was.  So any of them may be left out, and the other entries have the same replies.

## Main definitions

* `Session.Idle` — the entries that do nothing.
* `kept` — the elements of a row that are marked.

## Main results

* `Session.Idle.enter` — such an entry leaves the session as it was.
* `Session.idle_entries_leave_no_trace` — such entries may be left out.
-/

namespace Monkey

/-- A switch takes or rejects a word, whatever its state is. -/
theorem Switch.setTo?_eq_none {word : String} {now : Bool} (h : setTo? word now = none)
    (later : Bool) : setTo? word later = none := by
  unfold setTo? at h ⊢
  split_ifs at h ⊢
  rfl

/-! ### Rows with marks -/

/-- The elements of a row that are marked, in their order. -/
def kept {α : Type} (row : List (α × Bool)) : List α :=
  (row.filter Prod.snd).map Prod.fst

theorem kept_cons {α : Type} (a : α) (mark : Bool) (row : List (α × Bool)) :
    kept ((a, mark) :: row) = if mark then a :: kept row else kept row := by
  cases mark <;> rfl

namespace Session

variable {depth : Nat} {t : Session}

/-! ### Idle entries -/

/-- Entries that do nothing to a session. -/
inductive Idle (depth : Nat) : Option String → Prop
  | interruption : Idle depth none
  | blank {entry : String} (blank : (normalize entry).toList.all Text.isBlank) :
      Idle depth (some entry)
  | clear {entry : String} (command : Command.ofEntry? (normalize entry) = some .clear) :
      Idle depth (some entry)
  | unknown {entry name : String}
      (command : Command.ofEntry? (normalize entry) = some (.unknown name)) :
      Idle depth (some entry)
  /-- A word that the switch for traces rejects. -/
  | trace {entry word : String} {now : Bool}
      (command : Command.ofEntry? (normalize entry) = some (.trace word))
      (rejected : Switch.setTo? word now = none) : Idle depth (some entry)
  /-- A word that the switch for the echo rejects. -/
  | echo {entry word : String} {now : Bool}
      (command : Command.ofEntry? (normalize entry) = some (.echo word))
      (rejected : Switch.setTo? word now = none) : Idle depth (some entry)
  /-- A program with an error in it. -/
  | refused {entry : String} {p : Parsed} (program : Command.ofEntry? (normalize entry) = none)
      (parsed : parse depth (normalize entry) = some p) (complains : p.complaints ≠ []) :
      Idle depth (some entry)

/-- Whether the parser complains about a program is found by parsing it. -/
theorem Idle.of_complaints {entry : String} (program : Command.ofEntry? (normalize entry) = none)
    (h : (parse depth (normalize entry)).any fun p => p.complaints ≠ []) :
    Idle depth (some entry) := by
  cases hp : parse depth (normalize entry) with
  | none =>
    rw [hp] at h
    cases h
  | some p =>
    rw [hp, Option.any_some, decide_eq_true_eq] at h
    exact .refused program hp h

/-- A program that the parser complains about is not run, and neither is its echo printed. -/
theorem program_of_complaints (h : t.Settled) {text : String} {p : Parsed}
    (hp : parse depth text = some p) (hcomplaints : p.complaints ≠ []) :
    (t.program depth text).2 = t := by
  cases hecho : t.echo with
  | true => rw [program, echoOf_of_complaints hecho hp hcomplaints]
  | false =>
    rw [program, echoOf_of_off hecho]
    simp only [run_of_complaints hp hcomplaints, h.clearPrinted]

/-- **An idle entry leaves the session as it was.** -/
theorem Idle.enter {entry : Option String} (hidle : Idle depth entry) (h : t.Settled) :
    (t.enter depth entry).2 = t := by
  cases hidle with
  | interruption => rfl
  | blank hblank => rw [enter_of_blank hblank]
  | clear hcommand | unknown hcommand =>
    rw [enter_of_command hcommand]
    rfl
  | trace hcommand hrejected | echo hcommand hrejected =>
    rw [enter_of_command hcommand, command, Switch.setTo?_eq_none hrejected]
  | @refused entry p hprogram hp hcomplaints =>
    by_cases hblank : (normalize entry).toList.all Text.isBlank
    · rw [enter_of_blank hblank]
    · rw [enter_of_program hblank hprogram]
      exact program_of_complaints h hp hcomplaints

/-! ### Sessions with idle entries left out -/

/-- The entries that are not marked are idle. -/
theorem kept_of_idle (h : t.Settled) {row : List (Option String × Bool)}
    (hidle : ∀ r ∈ row, r.2 = false → Idle depth r.1) :
    enterAll depth (kept row) t =
        kept ((enterAll depth (row.map Prod.fst) t).zip (row.map Prod.snd)) ∧
      behind depth (kept row) t = behind depth (row.map Prod.fst) t := by
  induction row generalizing t with
  | nil => exact ⟨rfl, rfl⟩
  | cons r row ih =>
    obtain ⟨entry, mark⟩ := r
    obtain ⟨hentry, hrow⟩ := List.forall_mem_cons.mp hidle
    obtain ⟨hreplies, hbehind⟩ := ih (h.enter entry) hrow
    simp only [List.map_cons, enterAll, List.zip_cons_cons, kept_cons]
    cases mark with
    | true => exact ⟨congrArg (_ :: ·) hreplies, hbehind⟩
    | false =>
      -- the entry is left out, and the next one finds the session as it was
      have hsame : (t.enter depth entry).2 = t := (hentry rfl).enter h
      rw [hsame] at hreplies hbehind
      refine ⟨?_, hbehind.trans ?_⟩
      · rw [hsame]
        exact hreplies
      · rw [behind, behind, List.foldl_cons, hsame]

/-- **Idle entries leave no trace.**  If any of them are left out of a session, each entry that
remains has the reply that it has with them, and the session ends in the same state. -/
theorem idle_entries_leave_no_trace (depth : Nat) (row : List (Option String × Bool))
    (echo : Bool) (trace : Trace) (h : ∀ r ∈ row, r.2 = false → Idle depth r.1) :
    enterAll depth (kept row) (start echo trace) =
        kept ((enterAll depth (row.map Prod.fst) (start echo trace)).zip (row.map Prod.snd)) ∧
      behind depth (kept row) (start echo trace) =
        behind depth (row.map Prod.fst) (start echo trace) :=
  kept_of_idle (settled_start echo trace) h

/-- An idle entry of every kind is left out.  Two of them are programs that would bind `n` anew,
one before the echo is turned on and one behind that. -/
theorem idle_entries_leave_no_trace_each :
    let row := [(some "let n = 1;", true), (none, false), (some " \u200b", false),
      (some "/clear", false), (some "/quit", false), (some "/py-traceback 2", false),
      (some "let n = 2; f(", false), (some "/ast on", true), (some "/ast of", false),
      (some "let n = 3; )", false), (some "n", true)]
    (∀ r ∈ row, r.2 = false → Idle 40 r.1) ∧
    enterAll 40 (kept row) (start false none) =
      [{}, .line "AST echo: on", { out := "n\n1\n" }] ∧
    enterAll 40 (kept row) (start false none) =
        kept ((enterAll 40 (row.map Prod.fst) (start false none)).zip (row.map Prod.snd)) ∧
      behind 40 (kept row) (start false none) =
        behind 40 (row.map Prod.fst) (start false none) := by
  intro row
  have hidle : ∀ r ∈ row, r.2 = false → Idle 40 r.1 := by
    simp only [row, List.forall_mem_cons, Bool.true_eq_false, false_implies, true_implies,
      true_and]
    have hblank : Idle 40 (some " \u200b") := .blank (by decide +kernel)
    have hclear : Idle 40 (some "/clear") := .clear (by decide +kernel)
    have hunknown : Idle 40 (some "/quit") := @Idle.unknown 40 _ "/quit" (by decide +kernel)
    have htrace : Idle 40 (some "/py-traceback 2") :=
      @Idle.trace 40 _ "2" false (by decide +kernel) (by decide +kernel)
    have hecho : Idle 40 (some "/ast of") :=
      @Idle.echo 40 _ "of" true (by decide +kernel) (by decide +kernel)
    have hcall : Idle 40 (some "let n = 2; f(") :=
      .of_complaints (by decide +kernel) (by decide +kernel)
    have hparenthesis : Idle 40 (some "let n = 3; )") :=
      .of_complaints (by decide +kernel) (by decide +kernel)
    exact ⟨.interruption, hblank, hclear, hunknown, htrace, hcall, hecho, hparenthesis,
      List.forall_mem_nil _⟩
  exact ⟨hidle, by decide +kernel, idle_entries_leave_no_trace 40 row false none hidle⟩

end Session

end Monkey
