import Monkey.Token.Basic

/-!
# Complaints

What a parser finds wrong with a text.  It goes on after a complaint, so there may
be several.

## Main definitions

* `Complaint` — what was wanted, and the token that came instead.
* `Complaint.message` — its wording.
-/

namespace Monkey

/-- What is wrong at a token.  No token stands for the end of the text. -/
inductive Complaint
  /-- A token of some kind has to follow, and another one does. -/
  | expected (wanted : Token.Kind) (got : Option Token)
  /-- An operand has to begin here, and none can. -/
  | noOperand (got : Option Token)
  /-- The digits spell no integer of the language. -/
  | badInteger (got : Token)
  deriving DecidableEq, Repr

namespace Complaint

/-- The kind of the token that comes next, if any does. -/
def kindOf (t : Option Token) : Token.Kind :=
  t.elim .eof Token.kind

/-- The token that a complaint is about. -/
def token? : Complaint → Option Token
  | expected _ got => got
  | noOperand got => got
  | badInteger got => some got

/-- The wording of a complaint. -/
def message : Complaint → String
  | expected wanted got =>
    "expected next token to be " ++ wanted.text ++ ", got " ++ (kindOf got).text ++ " instead"
  | noOperand got => "no prefix parse function for " ++ (kindOf got).text ++ " found"
  | badInteger got => "could not parse " ++ got.literal ++ " as integer"

end Complaint

end Monkey
