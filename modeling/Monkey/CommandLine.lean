import Monkey.Folder
import Monkey.Session.Report
import Monkey.Session.Switch
import Monkey.Text.Lines
import Monkey.Text.Quoted
import Monkey.Text.Utf8

/-!
# The command line

A program is given as an argument, as a file or on the input, and is run, shown as an
outline, or listed as tokens.  A second command only shows outlines, of a file or of the
input.

## Main definitions

* `CommandLine.Context` — the input, the files and the setting for traces.
* `CommandLine.Arguments`, `CommandLine.arguments?` — what the arguments ask for.
* `CommandLine.source` — the text of the program.
* `CommandLine.execute` — runs, outlines or lists a text.
* `CommandLine.command` — the command.
* `CommandLine.outline` — the second command.
-/

namespace Monkey.CommandLine

/-- What surrounds a command: the input, what each path leads to, and the setting for
traces. -/
structure Context where
  input : String := ""
  find : String → Except Unreachable Target := fun _ => .error .notFound
  trace : Trace := none

/-! ### Failures -/

/-- A use of the command that makes no sense. -/
inductive Misuse
  | unknownFlag (flag : String)
  | unexpectedArgument (argument : String)
  | noInput
  deriving DecidableEq, Repr

/-- The wording of a misuse. -/
def Misuse.message : Misuse → String
  | unknownFlag flag => "Unknown flag: " ++ flag
  | unexpectedArgument argument => "Unexpected argument: " ++ argument
  | noInput => "No input provided on stdin"

/-- Why a file cannot be read. -/
inductive Unreadable
  | unreachable (path : String) (why : Unreachable)
  | isFolder (path : String)
  | undecodable (fault : Text.Utf8.Fault)
  deriving DecidableEq, Repr

/-- The wording of a fault in the bytes of a file. -/
def faultMessage (f : Text.Utf8.Fault) : String :=
  let place :=
    if f.length = 1 then
      "byte 0x" ++ Text.hexadecimal 2 f.lead.toNat ++ " in position " ++ toString f.offset
    else
      "bytes in position " ++ toString f.offset ++ "-" ++ toString (f.offset + f.length - 1)
  let reason := match f.reason with
    | .start => "invalid start byte"
    | .continuation => "invalid continuation byte"
    | .ending => "unexpected end of data"
  "'utf-8' codec can't decode " ++ place ++ ": " ++ reason

/-- The wording of why a file cannot be read. -/
def Unreadable.message : Unreadable → String
  | unreachable path .notFound => "[Errno 2] No such file or directory: " ++ Text.quote path
  | unreachable path .notFolder => "[Errno 20] Not a directory: " ++ Text.quote path
  | unreachable path .tooLong => "[Errno 36] File name too long: " ++ Text.quote path
  | unreachable _ .nullCharacter => "embedded null byte"
  | isFolder path => "[Errno 21] Is a directory: " ++ Text.quote path
  | undecodable fault => faultMessage fault

/-- How a command ends. -/
inductive Status
  | success
  | failure
  | misused (why : Misuse)
  | unreadable (why : Unreadable)
  | stopped (why : Stop)
  deriving DecidableEq, Repr

/-- What is told of an end, where the command itself has printed nothing of it. -/
def Status.message : Status → String
  | success | failure => ""
  | misused why => why.message ++ "\n"
  | unreadable why => why.message ++ "\n"
  | stopped why => Report.stop why

/-- The exit code of a command. -/
def Status.code : Status → UInt32
  | success => 0
  | _ => 1

/-- What a command prints, and how it ends. -/
structure Result where
  out : String := ""
  err : String := ""
  status : Status := .success
  deriving DecidableEq, Repr

/-! ### Arguments -/

/-- What the arguments ask for. -/
structure Arguments where
  outline : Bool := false
  tokens : Bool := false
  source : Option String := none
  deriving DecidableEq, Repr

/-- Takes one more argument. -/
def Arguments.add (a : Arguments) (argument : String) : Except Misuse Arguments :=
  if argument = "--ast" then .ok { a with outline := true }
  else if argument = "--tokens" then .ok { a with tokens := true }
  else if "--".isPrefixOf argument then .error (.unknownFlag argument)
  else if a.source.isNone then .ok { a with source := some argument }
  else .error (.unexpectedArgument argument)

/-- What some arguments ask for; the first that makes no sense ends the reading. -/
def arguments? (arguments : List String) : Except Misuse Arguments :=
  arguments.foldlM Arguments.add {}

/-! ### Files -/

/-- The text of a file. -/
def fileText (bytes : ByteArray) : Except Unreadable String :=
  match Text.Utf8.decode bytes with
  | .ok text => .ok (String.ofList (Text.unifyLineEnds text.toList))
  | .error fault => .error (.undecodable fault)

/-- The text of the input. -/
def Context.inputText (c : Context) : String :=
  String.ofList (Text.unifyLineEnds c.input.toList)

/-- Whether an argument, or none, stands for the input. -/
def isInput (argument : Option String) : Bool :=
  argument = none || argument = some "" || argument = some "-"

/-- The text of the program: the input, a file, or else the argument itself.  A path to a
file may have idle steps in it. -/
def source (c : Context) (argument : Option String) : Except Status String :=
  if isInput argument then
    if c.inputText.isEmpty then .error (.misused .noInput) else .ok c.inputText
  else
    let argument := argument.getD ""
    match c.find (tidyPath argument) with
    | .ok (.file bytes) => (fileText bytes).mapError .unreadable
    | _ => .ok argument

/-! ### Commands -/

/-- The line for a token. -/
def tokenLine (t : Token) : String :=
  toString t.line ++ ":" ++ toString t.column ++ "\t" ++ t.kind.name ++ "\t" ++
    Text.quote t.literal ++ "\n"

/-- Lists the tokens of a text. -/
def listing (text : String) : Result :=
  { out := String.join ((tokenize text).map tokenLine) }

/-- What is printed when something stops after `out` has been printed. -/
def halted (trace : Trace) (out : String) (why : Stop) : Result where
  out := out
  err := Report.stop why ++
    if trace.enabled then "Traceback (most recent call last):\n" else ""
  status := .failure

/-- What is printed about complaints. -/
def refused (complaints : List Complaint) : Result :=
  { err := Report.complaints complaints ++ "\n", status := .failure }

/-- Shows the outline of a text. -/
def outlined (depth : Nat) (trace : Trace) (text : String) : Result :=
  match parse depth text with
  | none => halted trace "" .tooDeep
  | some p =>
    if p.complaints.isEmpty then
      match p.program.outline? depth with
      | .ok o => { out := o.print ++ "\n" }
      | .error why => halted trace "" why
    else refused p.complaints

/-- Whether a value is an error. -/
def isError (v : Value) : Bool :=
  v.kind = .error

/-- Runs a text, and prints the value that it has. -/
def ran (depth : Nat) (trace : Trace) (text : String) : Result :=
  let (outcome, store) := run depth text Store.empty.size (Store.empty.addScope none)
  match outcome with
  | .refused complaints => refused complaints
  | .stopped why => halted trace store.printed why
  | .finished none => { out := store.printed }
  | .finished (some v) =>
    match v.inspect? depth with
    | .ok shown =>
      { out := store.printed ++ shown ++ "\n",
        status := if isError v then .failure else .success }
    | .error why => halted trace store.printed why

/-- Does with a text what the arguments ask for: a listing before an outline. -/
def execute (depth : Nat) (trace : Trace) (a : Arguments) (text : String) : Result :=
  if a.tokens then listing text
  else if a.outline then outlined depth trace text
  else ran depth trace text

/-- The command. -/
def command (depth : Nat) (c : Context) (arguments : List String) : Result :=
  match arguments? arguments with
  | .error why => { status := .misused why }
  | .ok a =>
    match source c a.source with
    | .error status => { status }
    | .ok text => execute depth c.trace a text

/-! ### Outlines only -/

/-- The text of the file that a path leads to. -/
def readFile (c : Context) (path : String) : Except Unreadable String :=
  match c.find path with
  | .ok (.file bytes) => fileText bytes
  | .ok .folder => .error (.isFolder path)
  | .error why => .error (.unreachable path why)

/-- The text of the second command: a file, or the input. -/
def outlineSource (c : Context) (argument : Option String) : Except Status String :=
  match argument with
  | none | some "-" => .ok c.inputText
  | some path => (readFile c path).mapError .unreadable

/-- The second command: shows the outline of the first argument that is no flag. -/
def outline (depth : Nat) (c : Context) (arguments : List String) : Result :=
  match outlineSource c (arguments.find? fun a => !"--".isPrefixOf a) with
  | .error status => { status }
  | .ok text =>
    match parse depth text with
    | none => { status := .stopped .tooDeep }
    | some p =>
      if p.complaints.isEmpty then
        match p.program.outline? depth with
        | .ok o => { out := o.print ++ "\n" }
        | .error why => { status := .stopped why }
      else
        { err := "Parse error: " ++ "\n".intercalate (p.complaints.map Complaint.message) ++ "\n",
          status := .failure }

end Monkey.CommandLine
