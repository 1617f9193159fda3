import Monkey.Text.Blank

/-!
# Commands

An entry that begins with a slash is a command to the session.

## Main definitions

* `Command`, `Command.ofEntry?` — commands, and the one that an entry gives.
* `Command.Help`, `Command.helps` — the list of commands for a user.
* `Command.completions` — the commands that what has been typed may become.
-/

namespace Monkey

/-- Commands. -/
inductive Command
  | clear
  /-- Turns traces on or off. -/
  | trace (word : String)
  /-- Turns the echo of the parsed program on or off. -/
  | echo (word : String)
  | reset
  | unknown (name : String)
  deriving DecidableEq, Repr

namespace Command

/-- The command of a name. -/
def named (name argument : String) : Command :=
  if name = "/clear" then clear
  else if name = "/py-traceback" then trace argument
  else if name = "/ast" then echo argument
  else if name = "/reset" then reset
  else unknown name

/-- The command that an entry gives, if it begins with a slash. -/
def ofEntry? (entry : String) : Option Command :=
  let stripped := Text.strip entry.toList
  if stripped.head? = some '/' then
    let (name, argument) := Text.firstWord stripped
    some (named (String.ofList name) (String.ofList argument))
  else none

/-! ### Completion -/

/-- What a user is told of a command. -/
structure Help where
  name : String
  /-- What may follow the name; nothing if it is empty. -/
  hint : String
  description : String
  deriving DecidableEq, Repr

/-- The commands, in the order in which they are offered. -/
def helps : List Help :=
  [ ⟨"/ast", "[on|off]", "Echo the parsed program before evaluating"⟩,
    ⟨"/clear", "", "Clear the terminal screen"⟩,
    ⟨"/py-traceback", "[on|off]", "Toggle Python traceback on errors"⟩,
    ⟨"/reset", "", "Reset the REPL environment"⟩ ]

/-- A command on offer: its name replaces the last `replaced` characters typed. -/
structure Completion where
  name : String
  replaced : Nat
  display : String
  description : String
  deriving DecidableEq, Repr

/-- The commands that the text before the cursor may become. -/
def completions (typed : List Char) : List Completion :=
  if typed.head? = some '/' then
    (helps.filter fun h => typed.isPrefixOf h.name.toList).map fun h =>
      ⟨h.name, typed.length, if h.hint.isEmpty then h.name else h.name ++ " " ++ h.hint,
        h.description⟩
  else []

end Command

end Monkey
