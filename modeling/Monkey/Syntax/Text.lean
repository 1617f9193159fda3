import Monkey.Syntax.Node

/-!
# Trees as text

The canonical text of a tree: one line, with every prefix and infix operation in
parentheses.  Literals stand as their tokens have them, so a string has no quotes.
What is missing leaves nothing behind.

## Main definitions

* `Node.text` — the text of a tree.

## Main results

* `Node.texts_eq_map`, `Node.pairTexts_eq_map` — the texts of lists.
-/

namespace Monkey.Node

mutual

/-- The canonical text of a tree. -/
def text : Node → String
  | missing => ""
  | bare _ => ""
  | program statements => String.join (texts statements)
  | letStatement token name value =>
    token.literal ++ " " ++ text name ++ " = " ++ text value ++ ";"
  | returnStatement token value => token.literal ++ " " ++ text value ++ ";"
  | expressionStatement _ expression => text expression
  | block _ statements => String.join (texts statements)
  | identifier _ name => name
  | integer token _ => token.literal
  | boolean token _ => token.literal
  | string token _ => token.literal
  | prefixed _ operator right => "(" ++ operator ++ text right ++ ")"
  | infixed _ left operator right =>
    "(" ++ text left ++ " " ++ operator ++ " " ++ text right ++ ")"
  | conditional _ condition consequence alternative =>
    "if" ++ text condition ++ " " ++ text consequence ++
      (if alternative.isMissing then "" else "else " ++ text alternative)
  | function token parameters body =>
    token.literal ++ "(" ++ ", ".intercalate (texts parameters) ++ ") " ++ text body
  | call _ callee arguments => text callee ++ "(" ++ ", ".intercalate (texts arguments) ++ ")"
  | array _ elements => "[" ++ ", ".intercalate (texts elements) ++ "]"
  | hash _ pairs => "\x7b" ++ ", ".intercalate (pairTexts pairs) ++ "\x7d"
  | index _ left subscript => "(" ++ text left ++ "[" ++ text subscript ++ "])"

/-- The texts of some trees. -/
def texts : List Node → List String
  | [] => []
  | n :: ns => text n :: texts ns

/-- The texts of the pairs of a hash. -/
def pairTexts : List (Node × Node) → List String
  | [] => []
  | (key, value) :: pairs => (text key ++ ":" ++ text value) :: pairTexts pairs

end

theorem texts_eq_map (ns : List Node) : texts ns = ns.map text := by
  induction ns with
  | nil => rfl
  | cons n ns ih => simp [texts, ih]

theorem pairTexts_eq_map (ps : List (Node × Node)) :
    pairTexts ps = ps.map fun p => text p.1 ++ ":" ++ text p.2 := by
  induction ps with
  | nil => rfl
  | cons p ps ih => simp [pairTexts, ih]

end Monkey.Node
