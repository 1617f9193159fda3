import Monkey.CommandLine
import Monkey.Limits

/-!
# The program

The command line, on the standard streams, the files and the environment.

## Main definitions

* `CommandLine.context` — the context that a command is given.
* `main` — the program.
-/

namespace Monkey.CommandLine

/-- The variable that holds the setting for traces. -/
def traceVariable : String := "MONKEY_DEBUG_PY_TRACE"

/-- The text of the standard input. -/
def readInput : IO String := do
  match Text.Utf8.decode (← (← IO.getStdin).readBinToEnd) with
  | .ok text => return text
  | .error fault => throw (IO.userError (faultMessage fault))

/-- The file that a path leads to, if there is one that can be read. -/
def readFile? (path : String) : IO (Option ByteArray) := do
  match ← (IO.FS.readBinFile path).toBaseIO with
  | .ok bytes => return some bytes
  | .error _ => return none

/-- The context of a command whose program is given by an argument, or by none.  The input
is read only where it is the program. -/
def context (argument : Option String) : IO Context := do
  let trace ← IO.getEnv traceVariable
  if isInput argument then
    return { input := ← readInput, trace }
  else
    let path := tidyPath (argument.getD "")
    match ← readFile? path with
    | some bytes =>
      return { find := fun p => if p = path then .ok (.file bytes) else .error .notFound, trace }
    | none => return { trace }

end Monkey.CommandLine

open Monkey CommandLine in
/-- Runs the command on its arguments. -/
def main (arguments : List String) : IO UInt32 := do
  let context ← match arguments? arguments with
    | .ok asked => context asked.source
    | .error _ => pure {}
  let result := command usualDepth context arguments
  IO.print result.out
  IO.eprint (result.err ++ result.status.message)
  return result.status.code
