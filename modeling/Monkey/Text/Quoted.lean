import Monkey.Text.Printable

/-!
# Quoted text

Text in quotes, for listings: one line, with nothing in it that a terminal would
not show.  The quotes are single ones, unless the text has a single quote in it
and no double one.  Backslashes, the quotes themselves, line feeds, carriage
returns and tabs have short escapes; any other character that is not printable is
written by its code in hexadecimal.

## Main definitions

* `quote` — the quoted form of a text.
-/

namespace Monkey.Text

/-- A number in hexadecimal, with zeros in front up to a width. -/
def hexadecimal (width n : Nat) : String :=
  let digits := Nat.toDigits 16 n
  String.ofList (List.replicate (width - digits.length) '0' ++ digits)

/-- A character by its code: two digits, four or eight. -/
def escapeCode (c : Char) : String :=
  if c.toNat < 0x100 then "\\x" ++ hexadecimal 2 c.toNat
  else if c.toNat < 0x10000 then "\\u" ++ hexadecimal 4 c.toNat
  else "\\U" ++ hexadecimal 8 c.toNat

/-- A character between quotes of a kind. -/
def escapeChar (mark : Char) (c : Char) : String :=
  if c = mark || c = '\\' then String.ofList ['\\', c]
  else if c = '\n' then "\\n"
  else if c = '\r' then "\\r"
  else if c = '\t' then "\\t"
  else if isPrintable c then c.toString
  else escapeCode c

/-- The quotes for a text. -/
def quoteMark (text : String) : Char :=
  if text.toList.contains '\'' && !text.toList.contains '"' then '"' else '\''

/-- The quoted form of a text. -/
def quote (text : String) : String :=
  let mark := quoteMark text
  text.toList.foldl (fun out c => out ++ escapeChar mark c) mark.toString ++ mark.toString

end Monkey.Text
