import Monkey.Token.Scan

/-!
# Open brackets

How many brackets a text leaves open.  Kinds of bracket are not told apart, and
a closing bracket with nothing open is ignored.

## Main definitions

* `Token.Kind.opens`, `Token.Kind.closes` — the two classes of bracket.
* `bracketDepth` — the count over the tokens of a text, so that a bracket inside
  a string does not count.
-/

namespace Monkey

namespace Token.Kind

/-- The opening brackets. -/
def opens : Kind → Bool
  | lparen | lbracket | lbrace => true
  | _ => false

/-- The closing brackets. -/
def closes : Kind → Bool
  | rparen | rbracket | rbrace => true
  | _ => false

/-- The number of open brackets behind a token: a closing bracket takes one away
unless there is none. -/
def depthAfter (depth : Nat) (kind : Kind) : Nat :=
  if kind.opens then depth + 1 else if kind.closes then depth - 1 else depth

end Token.Kind

/-- The number of brackets that a text leaves open. -/
def bracketDepth (text : String) : Nat :=
  ((tokens text).map Token.kind).foldl Token.Kind.depthAfter 0

end Monkey
