import Monkey.Session.Command
import Monkey.Session.Report
import Monkey.Session.Switch

/-!
# Sessions

A session takes one entry after another: commands, and programs that are run in a scope
which all entries share.

## Main definitions

* `Session`, `Session.start` — the state between entries.
* `Reply` — what an entry makes the session print.
* `Session.command` — obeys a command.
* `Session.program` — runs a program.
* `Session.enter` — takes an entry.
-/

namespace Monkey

/-- What a session prints, on its output and on its error output. -/
structure Reply where
  /-- Whether the screen is cleared first. -/
  clears : Bool := false
  out : String := ""
  err : String := ""
  deriving DecidableEq, Repr, Inhabited

namespace Reply

/-- A line of output. -/
def line (text : String) : Reply :=
  { out := text ++ "\n" }

/-- A line of error output. -/
def warning (text : String) : Reply :=
  { err := text ++ "\n" }

end Reply

/-- The state of a session: the store, the scope in which programs run, and the two
switches.  Between entries nothing is left in the store that was printed. -/
structure Session where
  store : Store
  scope : ScopeId
  echo : Bool
  trace : Trace
  deriving Repr, Inhabited

namespace Session

/-- A session without bindings. -/
def start (echo : Bool) (trace : Trace) : Session :=
  ⟨Store.empty.addScope none, Store.empty.size, echo, trace⟩

/-- The line printed before the first entry. -/
def greeting : Reply :=
  .line "monkey repl (Ctrl-D to exit, / for commands)"

/-- The line printed after the last entry. -/
def farewell : Reply :=
  .line ""

/-! ### Commands -/

/-- Obeys a command. -/
def command (t : Session) : Command → Reply × Session
  | .clear => ({ clears := true }, t)
  | .trace word =>
    match Switch.setTo? word t.trace.enabled with
    | none => (.warning "Usage: /py-traceback [on|off]", t)
    | some on =>
      (.line ("Python traceback: " ++ Switch.tell on), { t with trace := .set on })
  | .echo word =>
    match Switch.setTo? word t.echo with
    | none => (.warning "Usage: /ast [on|off]", t)
    | some on => (.line ("AST echo: " ++ Switch.tell on), { t with echo := on })
  | .reset =>
    -- the scopes made so far stay in the store, as ever, but nothing leads to them any more
    (.line "Environment reset.", { t with store := t.store.addScope none, scope := t.store.size })
  | .unknown name => (.warning ("Unknown command: " ++ name), t)

/-! ### Programs -/

/-- What is printed when something stops after `out` has been printed. -/
def stopped (t : Session) (out : String) (why : Stop) : Reply :=
  { out, err := Report.stop why ++
      if t.trace.enabled then "\nPython traceback:\n" else "" }

/-- The echo of a program: its text, or the reply that takes the place of everything. -/
def echoOf (depth : Nat) (text : String) (t : Session) : Except Reply String :=
  if t.echo then
    match parse depth text with
    | none => .error (t.stopped "" .tooDeep)
    | some p =>
      if p.complaints.isEmpty then
        match p.program.text? depth with
        | .ok shown => .ok (shown ++ "\n")
        | .error why => .error (t.stopped "" why)
      else .error (.line (Report.complaints p.complaints))
  else .ok ""

/-- The reply to an outcome, after an echo and what the program printed. -/
def replyTo (depth : Nat) (t : Session) (out : String) : Outcome → Reply
  | .refused complaints => { out := out ++ Report.complaints complaints ++ "\n" }
  | .stopped why => t.stopped out why
  | .finished none => { out }
  | .finished (some v) =>
    match v.inspect? depth with
    | .ok shown => { out := out ++ shown ++ "\n" }
    | .error why => t.stopped out why

/-- Runs a program. -/
def program (depth : Nat) (text : String) (t : Session) : Reply × Session :=
  match t.echoOf depth text with
  | .error reply => (reply, t)
  | .ok echo =>
    let (outcome, store) := run depth text t.scope t.store
    (t.replyTo depth (echo ++ store.printed) outcome, { t with store := store.clearPrinted })

/-! ### Entries -/

/-- Characters that cannot be seen, and carriage returns. -/
def isInvisible (c : Char) : Bool :=
  c = '\u200b' || c = '\u200c' || c = '\u200d' || c = '\ufeff' || c = '\u00a0' || c = '\r'

/-- An entry without the characters that cannot be seen. -/
def normalize (entry : String) : String :=
  String.ofList (entry.toList.filter fun c => !isInvisible c)

/-- Takes an entry, or an interruption in its place. -/
def enter (depth : Nat) (entry : Option String) (t : Session) : Reply × Session :=
  match entry with
  | none => (.line "KeyboardInterrupt", t)
  | some entry =>
    let text := normalize entry
    if text.toList.all Text.isBlank then ({}, t)
    else
      match Command.ofEntry? text with
      | some c => t.command c
      | none => t.program depth text

/-- Takes entries one after another. -/
def enterAll (depth : Nat) : List (Option String) → Session → List Reply
  | [], _ => []
  | entry :: entries, t =>
    let (reply, t) := t.enter depth entry
    reply :: enterAll depth entries t

end Session

end Monkey
