import Monkey.Proofs.Session.Entries
import Monkey.Proofs.Syntax.Regular

/-!
# The echo only adds lines

With its echo on, a session reads a program once more before it is run, and prints what it has
read.  That is all that the echo does: apart from the line in front each entry has the reply that
it has with the echo off, and the same is bound behind it.  A program with complaints is reported
once, whether it is read once or twice.  Only the depth can make a difference, since the text of a
program may have too many levels to be written where the program itself can be run.

## Main definitions

* `Session.setsEcho` — the entries that turn the echo on or off.
* `Session.echoLine` — the line that the echo puts in front of the reply to an entry.
* `Reply.TellsTooDeep` — the reply where the depth is not enough.

## Main results

* `Session.command_withEcho`, `Session.program_withEcho` — what an entry may be, with the echo on
  and off.
* `Session.enter_withEcho` — one entry.
* `Session.echo_only_adds_lines` — all entries of a session.
-/

namespace Monkey

namespace Reply

/-- A reply with something in front of its output. -/
def precededBy (r : Reply) (line : String) : Reply :=
  { r with out := line ++ r.out }

@[simp] theorem precededBy_empty (r : Reply) : r.precededBy "" = r := by
  rw [precededBy, String.empty_append]

/-- A reply tells that the depth is not enough. -/
def TellsTooDeep (r : Reply) : Prop :=
  (Report.stop .tooDeep).toList <+: r.err.toList

instance (r : Reply) : Decidable r.TellsTooDeep :=
  inferInstanceAs (Decidable (_ <+: _))

end Reply

namespace Session

variable {depth : Nat} {t : Session} {text : String}

/-! ### The echo -/

/-- Whether an entry is the command for the echo. -/
def setsEcho (entry : Option String) : Bool :=
  match entry.bind fun e => Command.ofEntry? (normalize e) with
  | some (.echo _) => true
  | _ => false

/-- The echo of a program: its text on a line, unless there are complaints. -/
def programLine (depth : Nat) (text : String) : String :=
  match parse depth text with
  | some ⟨program, []⟩ => program.text ++ "\n"
  | _ => ""

/-- The echo of an entry: that of a program, and none of an interruption, a blank entry or a
command. -/
def echoLine (depth : Nat) : Option String → String
  | none => ""
  | some entry =>
    if (normalize entry).toList.all Text.isBlank then ""
    else if (Command.ofEntry? (normalize entry)).isSome then ""
    else programLine depth (normalize entry)

/-- The session with its echo turned on or off. -/
def withEcho (t : Session) (on : Bool) : Session :=
  { t with echo := on }

/-- A stop in a session tells that the depth is not enough if that is why. -/
theorem tellsTooDeep_stopped (t : Session) (out : String) :
    (t.stopped out .tooDeep).TellsTooDeep := by
  rw [Reply.TellsTooDeep, stopped, String.toList_append]
  exact List.prefix_append _ _

/-! ### Replies -/

/-- What is printed in front of a reply stays in front. -/
theorem replyTo_append (t : Session) (depth : Nat) (line out : String) (o : Outcome) :
    t.replyTo depth (line ++ out) o = (t.replyTo depth out o).precededBy line := by
  cases o with
  | refused complaints => simp only [replyTo, Reply.precededBy, String.append_assoc]
  | stopped why => rfl
  | finished result =>
    cases result with
    | none => rfl
    | some v =>
      simp only [replyTo]
      split
      · simp only [Reply.precededBy, String.append_assoc]
      · rfl

/-! ### Commands -/

/-- A command that is not for the echo does the same with the echo on and off. -/
theorem command_withEcho {c : Command} (hc : ∀ word, c ≠ .echo word) (t : Session) (on : Bool) :
    (t.withEcho on).command c = ((t.command c).1, (t.command c).2.withEcho on) := by
  cases c with
  | clear | reset | unknown => rfl
  | echo word => exact absurd rfl (hc word)
  | trace word =>
    simp only [command, withEcho]
    split <;> rfl

theorem echo_command {c : Command} (hc : ∀ word, c ≠ .echo word) (t : Session) :
    (t.command c).2.echo = t.echo := by
  cases c with
  | clear | reset | unknown => rfl
  | echo word => exact absurd rfl (hc word)
  | trace word =>
    simp only [command]
    split <;> rfl

/-! ### Programs -/

/-- The text of a program is stopped by nothing but the depth. -/
theorem text?_of_parse {p : Parsed} (hp : parse depth text = some p) :
    p.program.text? depth = .ok p.program.text ∨ p.program.text? depth = .error .tooDeep := by
  obtain ⟨ns, hns, hregular⟩ := regular_of_parse hp
  have hpresent : p.program.isPresent := by
    rw [hns]
    rfl
  unfold Node.text?
  split
  · next why hstopped =>
    obtain ⟨rfl, -⟩ := hregular.textObstacle hpresent hstopped
    exact .inr rfl
  · exact .inl rfl

/-- The echo of a program tells that the depth is not enough, or it is a report about complaints,
or it is the line of the program. -/
theorem echoOf_cases (hon : t.echo = true) (depth : Nat) (text : String) :
    t.echoOf depth text = .error (t.stopped "" .tooDeep) ∨
    (∃ p, parse depth text = some p ∧ p.complaints ≠ [] ∧
      programLine depth text = "" ∧
      t.echoOf depth text = .error (.line (Report.complaints p.complaints))) ∨
    t.echoOf depth text = .ok (programLine depth text) := by
  cases hp : parse depth text with
  | none =>
    refine .inl ?_
    simp only [echoOf, hon, hp]
    rfl
  | some p =>
    obtain ⟨program, complaints⟩ := p
    cases complaints with
    | cons c cs =>
      have hcomplaints : c :: cs ≠ [] := List.cons_ne_nil c cs
      refine .inr (.inl ⟨_, rfl, hcomplaints, ?_, echoOf_of_complaints hon hp hcomplaints⟩)
      rw [programLine, hp]
    | nil =>
      rcases text?_of_parse hp with htext | htext
      · refine .inr (.inr ?_)
        simp only [echoOf, hon, programLine, hp, htext]
        rfl
      · refine .inl ?_
        simp only [echoOf, hon, hp, htext]
        rfl

/-- What a program does where there is no echo. -/
theorem program_of_off (hoff : t.echo = false) (depth : Nat) (text : String) :
    t.program depth text =
      (t.replyTo depth (run depth text t.scope t.store).2.printed
          (run depth text t.scope t.store).1,
        { t with store := (run depth text t.scope t.store).2.clearPrinted }) := by
  rw [program, echoOf_of_off hoff]
  simp only [String.empty_append]

/-- With the echo on, the line of a program is in front of the reply to it, and nothing else is
different. -/
theorem program_withEcho (h : t.Settled) (hoff : t.echo = false)
    (shallow : ¬ ((t.withEcho true).program depth text).1.TellsTooDeep) :
    (t.withEcho true).program depth text =
      ((t.program depth text).1.precededBy (programLine depth text),
        (t.program depth text).2.withEcho true) := by
  rw [program_of_off hoff]
  rcases echoOf_cases (t := t.withEcho true) rfl depth text with
    hecho | ⟨p, hp, hcomplaints, hline, hecho⟩ | hecho
  · rw [program, hecho] at shallow
    exact absurd (tellsTooDeep_stopped (t.withEcho true) "") shallow
  · -- one report in both sessions, since the echo takes the place of the reply
    have hprinted : t.store.printed = "" := h
    have hrun := run_of_complaints hp hcomplaints t.scope t.store
    rw [program, hecho, hline, Reply.precededBy_empty, hrun, h.clearPrinted, hprinted]
    simp only [replyTo, String.empty_append]
    rfl
  · rw [program, hecho, ← replyTo_append]
    rfl

theorem echo_program (t : Session) (depth : Nat) (text : String) :
    (t.program depth text).2.echo = t.echo := by
  unfold program
  split <;> rfl

/-! ### Entries -/

/-- **With the echo on, an entry has the line of its echo in front of its reply.** -/
theorem enter_withEcho (h : t.Settled) (hoff : t.echo = false) {entry : Option String}
    (kept : setsEcho entry = false)
    (shallow : ¬ ((t.withEcho true).enter depth entry).1.TellsTooDeep) :
    (t.withEcho true).enter depth entry =
        ((t.enter depth entry).1.precededBy (echoLine depth entry),
          (t.enter depth entry).2.withEcho true) ∧
      (t.enter depth entry).2.echo = false := by
  cases entry with
  | none => exact ⟨rfl, hoff⟩
  | some entry =>
    by_cases hblank : (normalize entry).toList.all Text.isBlank
    · rw [enter_of_blank hblank, enter_of_blank hblank, echoLine, if_pos hblank,
        Reply.precededBy_empty]
      exact ⟨rfl, hoff⟩
    · cases hcommand : Command.ofEntry? (normalize entry) with
      | some c =>
        have hc : ∀ word, c ≠ .echo word := by
          rintro word rfl
          rw [setsEcho, Option.bind_some, hcommand] at kept
          cases kept
        rw [enter_of_command hcommand, enter_of_command hcommand, command_withEcho hc, echoLine,
          if_neg hblank, hcommand]
        exact ⟨congrArg (·, _) (Reply.precededBy_empty _).symm, (echo_command hc t).trans hoff⟩
      | none =>
        rw [enter_of_program hblank hcommand] at shallow
        rw [enter_of_program hblank hcommand, enter_of_program hblank hcommand,
          program_withEcho h hoff shallow, echoLine, if_neg hblank, hcommand]
        exact ⟨rfl, (echo_program t depth _).trans hoff⟩

/-- With the echo on, all entries have the lines of their echoes in front of their replies. -/
theorem enterAll_withEcho (h : t.Settled) (hoff : t.echo = false)
    {entries : List (Option String)} (kept : ∀ entry ∈ entries, setsEcho entry = false)
    (shallow : ∀ r ∈ enterAll depth entries (t.withEcho true), ¬ r.TellsTooDeep) :
    enterAll depth entries (t.withEcho true) =
        List.zipWith (fun entry r => r.precededBy (echoLine depth entry)) entries
          (enterAll depth entries t) ∧
      behind depth entries (t.withEcho true) = (behind depth entries t).withEcho true := by
  induction entries generalizing t with
  | nil => exact ⟨rfl, rfl⟩
  | cons entry entries ih =>
    obtain ⟨hentry, hentries⟩ := List.forall_mem_cons.mp kept
    rw [enterAll_cons] at shallow
    obtain ⟨hreply, hreplies⟩ := List.forall_mem_cons.mp shallow
    obtain ⟨hone, hstays⟩ := enter_withEcho h hoff hentry hreply
    rw [hone] at hreplies
    obtain ⟨hothers, hbehind⟩ := ih (h.enter entry) hstays hentries hreplies
    constructor
    · rw [enterAll_cons, enterAll_cons, hone, hothers, List.zipWith_cons_cons]
    · rw [behind, List.foldl_cons, hone]
      exact hbehind

/-- **The echo only adds lines.**  Let no entry turn the echo on or off, and let the depth be enough
for all of them.  Then a session that is started with the echo on has for each entry the reply of
the session that is started with the echo off, with the text of the entry's program on a line in
front of it if the entry is a program without complaints; and both end in the same state. -/
theorem echo_only_adds_lines (depth : Nat) (entries : List (Option String)) (trace : Trace)
    (kept : ∀ entry ∈ entries, setsEcho entry = false)
    (shallow : ∀ r ∈ enterAll depth entries (start true trace), ¬ r.TellsTooDeep) :
    enterAll depth entries (start true trace) =
        List.zipWith (fun entry r => r.precededBy (echoLine depth entry)) entries
          (enterAll depth entries (start false trace)) ∧
      behind depth entries (start true trace) =
        (behind depth entries (start false trace)).withEcho true :=
  enterAll_withEcho (t := start false trace) rfl rfl kept shallow

/-- Among the entries are an interruption, a command, a blank one, a program that prints a line
before its error, and one with complaints; the last program calls the function of the first. -/
theorem echo_only_adds_lines_error :
    let entries := [some "let f = fn(x) \x7b puts(x); -x \x7d", some "f(1); f(true)", none,
      some "/py-traceback on", some "f(", some " \u200b", some "f(2) + 1"]
    (∀ entry ∈ entries, setsEcho entry = false) ∧
    (∀ r ∈ enterAll 60 entries (start true none), ¬ r.TellsTooDeep) ∧
    (enterAll 60 entries (start false none)).getLast? = some { out := "2\n-1\n" } ∧
    (enterAll 60 entries (start true none)).getLast? =
      some { out := "(f(2) + 1)\n2\n-1\n" } ∧
    enterAll 60 entries (start true none) =
        List.zipWith (fun entry r => r.precededBy (echoLine 60 entry)) entries
          (enterAll 60 entries (start false none)) ∧
      behind 60 entries (start true none) =
        (behind 60 entries (start false none)).withEcho true := by
  intro entries
  have kept : ∀ entry ∈ entries, setsEcho entry = false := by decide +kernel
  have shallow : ∀ r ∈ enterAll 60 entries (start true none), ¬ r.TellsTooDeep := by
    decide +kernel
  exact ⟨kept, shallow, by decide +kernel, by decide +kernel,
    echo_only_adds_lines 60 entries none kept shallow⟩

end Session

end Monkey
