import Monkey.Text.Blank
import Monkey.Token.Brackets

/-!
# The edit buffer

An entry while it is typed.  Enter submits it, unless a bracket is still open: then a new
line begins, indented by four blanks for each open bracket.  A command is submitted
whatever its brackets.

## Main definitions

* `Buffer` — the text before and behind the cursor.
* `Buffer.press` — the effect of a key.
-/

namespace Monkey

/-- The text before and behind the cursor. -/
structure Buffer where
  before : List Char
  behind : List Char
  deriving DecidableEq, Repr

namespace Buffer

/-- The keys. -/
inductive Key
  /-- Text that is typed or pasted. -/
  | type (text : List Char)
  | enter
  | backspace
  deriving DecidableEq, Repr

/-- What a key sets off outside of the buffer. -/
inductive Event
  /-- The text is submitted as an entry. -/
  | submit
  /-- The list of completions is opened. -/
  | complete
  deriving DecidableEq, Repr

/-- What stands before an entry, and before its further lines. -/
def prompts : String × String := (">> ", ".. ")

/-- A text with the cursor behind its first `cursor` characters. -/
def ofText (text : List Char) (cursor : Nat) : Buffer :=
  ⟨text.take cursor, text.drop cursor⟩

/-- The whole text. -/
def text (b : Buffer) : List Char :=
  b.before ++ b.behind

/-- The number of characters before the cursor. -/
def cursor (b : Buffer) : Nat :=
  b.before.length

/-- Inserts text at the cursor. -/
def insert (b : Buffer) (cs : List Char) : Buffer :=
  ⟨b.before ++ cs, b.behind⟩

/-- A new line that is indented for some open brackets. -/
def newLine (depth : Nat) : List Char :=
  '\n' :: List.replicate (4 * depth) ' '

/-- Whether a text is a command. -/
def isCommand (text : List Char) : Bool :=
  (Text.stripLeft text).head? = some '/'

/-- How many brackets Enter finds open. -/
def openBrackets (b : Buffer) : Nat :=
  if isCommand b.text then 0 else bracketDepth (String.ofList b.text)

/-- The effect of a key. -/
def press (b : Buffer) : Key → Buffer × List Event
  | .type cs => (b.insert cs, [])
  | .enter =>
    if b.openBrackets > 0 then (b.insert (newLine b.openBrackets), []) else (b, [.submit])
  | .backspace =>
    let b := { b with before := b.before.dropLast }
    (b, if b.text.head? = some '/' then [.complete] else [])

@[simp] theorem text_insert (b : Buffer) (cs : List Char) :
    (b.insert cs).text = b.before ++ cs ++ b.behind := rfl

@[simp] theorem text_ofText (cs : List Char) (cursor : Nat) :
    (ofText cs cursor).text = cs :=
  List.take_append_drop cursor cs

end Buffer

end Monkey
