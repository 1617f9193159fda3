import Monkey.Text.Lines
import Monkey.Token.Scan
import Monkey.Value.Basic

/-!
# Colouring

A line is shown as pieces, each in a style: one piece for each token, and one for the
blanks between two tokens.  Each line is scanned on its own.

## Main definitions

* `Style`, `Style.ofToken` — the styles, and the style of a token.
* `Fragment` — a piece of a line.
* `highlightLine` — the pieces of a line.
* `lineAt?`, `highlight` — one line of a text, and its pieces.
-/

namespace Monkey

/-- The styles. -/
inductive Style
  | plain
  | keyword
  | boolean
  | number
  | string
  | builtin
  | error
  deriving DecidableEq, Repr

namespace Style

/-- What a style asks of a terminal. -/
def spec : Style → String
  | plain => ""
  | keyword => "bold ansicyan"
  | boolean => "ansicyan"
  | number => "ansimagenta"
  | string => "ansigreen"
  | builtin => "bold ansiyellow"
  | error => "bold ansired"

/-- The style of a token: identifiers that name no builtin, operators and delimiters are
plain. -/
def ofToken (t : Token) : Style :=
  match t.kind with
  | .fnWord | .letWord | .ifWord | .elseWord | .returnWord | .forWord => keyword
  | .trueWord | .falseWord => boolean
  | .int => number
  | .string => string
  | .illegal => error
  | .ident => if (Builtin.ofName? t.literal).isSome then builtin else plain
  | _ => plain

end Style

/-- A piece of a line. -/
structure Fragment where
  style : Style
  text : List Char
  deriving DecidableEq, Repr

/-- The part of a line from one column to another, counted from 0. -/
def slice (line : List Char) (start stop : Nat) : List Char :=
  (line.take stop).drop start

/-- The text of a token in a line: a string has its quotes, the second one if it is
there. -/
def tokenText (line : List Char) (t : Token) : List Char :=
  if t.kind = .string then
    let start := t.column - 1
    let stop := start + 1 + t.literal.length
    slice line start (if (line.drop stop).head? = some '"' then stop + 1 else stop)
  else t.literal.toList

/-- The pieces of a line from column `done` on, for the tokens that are left.  A token
that begins before that column is left out. -/
def fragments (line : List Char) : Nat → List Token → List Fragment
  | done, [] => if done < line.length then [⟨.plain, line.drop done⟩] else []
  | done, t :: ts =>
    let text := tokenText line t
    let start := t.column - 1
    if text.isEmpty || start < done then fragments line done ts
    else
      (if done < start then [⟨.plain, slice line done start⟩] else []) ++
        ⟨.ofToken t, text⟩ :: fragments line (start + text.length) ts

/-- The pieces of a line; an empty line has one empty piece. -/
def highlightLine (line : List Char) : List Fragment :=
  match fragments line 0 (tokens (String.ofList line)) with
  | [] => [⟨.plain, line⟩]
  | fs => fs

/-- The line of a text with a number from 0; a number below that counts from the end. -/
def lineAt? (text : List Char) (number : Int) : Option (List Char) :=
  let lines := Text.splitLines text
  if number < 0 then lines.reverse[(-number - 1).toNat]? else lines[number.toNat]?

/-- The pieces of the line of a text with a number; a line that is not there is shown as an
empty one. -/
def highlight (text : List Char) (number : Int) : List Fragment :=
  highlightLine ((lineAt? text number).getD [])

end Monkey
