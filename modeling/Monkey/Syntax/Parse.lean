import Monkey.Syntax.Level
import Monkey.Syntax.Node
import Monkey.Syntax.Reading
import Monkey.Token.Scan

/-!
# From tokens to syntax trees

A parser by binding levels.  An operand is read by the token that begins it; then
operators are taken up as long as they bind more tightly than the level that was
asked for.  Every construct is written over the parser for expressions, `expression`,
so that only the last one, `Parse.expression`, is recursive: on the depth to which
expressions may be nested.

A construct that breaks off has made its complaint and gives `missing`; reading goes
on behind it.  Three constructs drop what is missing: a list of statements, a list of
arguments or elements, and a hash, which is missing as a whole.

## Main definitions

* `Parse.statement`, `Parse.block` — statements.
* `Parse.operand?` — the construct that a token begins.
* `Parse.climb` — one operator and its right side.
* `Parse.expression` — expressions of a level, nested to a depth.
* `parse` — the program of a text, and the complaints.
-/

namespace Monkey

namespace Parse

open Monkey.Parser

/-- A parser for expressions of a level. -/
abbrev Expressions := Level → Parser Node

/-- Goes over a semicolon if one comes up. -/
def optionalSemicolon : Parser Unit := do
  if (← upcomingKind) = .semicolon then advance

/-- Adds a node in front of a list unless it is missing. -/
def addPresent (nodes : List Node) (n : Node) : List Node :=
  if n.isPresent then n :: nodes else nodes

section Constructs

variable (expression : Expressions)

/-! ### Statements -/

/-- `let name = value`; the current token is the `let`. -/
def letStatement (token : Token) : Parser Node :=
  demand .ident .missing fun name =>
    demand .assign .missing fun _ => do
      advance
      let value ← expression .lowest
      optionalSemicolon
      return .letStatement token (.identifier name name.literal) value

/-- `return value`; the current token is the `return`. -/
def returnStatement (token : Token) : Parser Node := do
  advance
  let value ← expression .lowest
  optionalSemicolon
  return .returnStatement token value

/-- An expression as a statement. -/
def expressionStatement (token : Token) : Parser Node := do
  let value ← expression .lowest
  optionalSemicolon
  return .expressionStatement token value

/-- The statement that begins with the current token. -/
def statement (token : Token) : Parser Node :=
  match token.kind with
  | .letWord => letStatement expression token
  | .returnWord => returnStatement expression token
  | _ => expressionStatement expression token

/-- One more statement, unless the current token ends the list. -/
def moreStatements (ends : Token.Kind → Bool) (statements : List Node) :
    Parser (List Node ⊕ List Node) := do
  match ← current with
  | none => return .inr statements.reverse
  | some token =>
    if ends token.kind then return .inr statements.reverse
    else
      let s ← statement expression token
      advance
      return .inl (addPresent statements s)

/-- The statements of a program: all that there are. -/
def program : Parser Node := do
  let statements ← iterate (moreStatements expression fun _ => false) []
  return .program statements

/-- A block, up to its closing brace or the end of the text; the current token is the
opening brace. -/
def block (token : Token) : Parser Node := do
  advance
  let statements ← iterate (moreStatements expression (· = .rbrace)) []
  return .block token statements

/-! ### Lists -/

/-- One more item behind a comma, or the closing bracket. -/
def moreItems (close : Token.Kind) (items : List Node) :
    Parser (List Node ⊕ Option (List Node)) := do
  if (← upcomingKind) = .comma then
    advance
    advance
    let item ← expression .lowest
    return .inl (addPresent items item)
  else
    demand close (.inr none) fun _ => return .inr (some items.reverse)

/-- Expressions between commas, up to a closing bracket; the current token is the opening
one. -/
def items (close : Token.Kind) : Parser (Option (List Node)) := do
  if (← upcomingKind) = close then
    advance
    return some []
  else
    advance
    let first ← expression .lowest
    iterate (moreItems expression close) (addPresent [] first)

/-- One more name behind a comma, or the closing parenthesis. -/
def moreParameters (names : List Node) : Parser (List Node ⊕ Option (List Node)) := do
  if (← upcomingKind) = .comma then
    advance
    demand .ident (.inr none) fun t => return .inl (.identifier t t.literal :: names)
  else
    demand .rparen (.inr none) fun _ => return .inr (some names.reverse)

/-- The parameters of a function; the current token is the opening parenthesis. -/
def parameters : Parser (Option (List Node)) := do
  if (← upcomingKind) = .rparen then
    advance
    return some []
  else
    demand .ident none fun t => iterate moreParameters [.identifier t t.literal]

/-- One more pair and the comma behind it, or the closing brace.  The comma may be left
out before the brace. -/
def morePairs (pairs : List (Node × Node)) :
    Parser (List (Node × Node) ⊕ Option (List (Node × Node))) := do
  if (← upcomingKind) = .rbrace then
    advance
    return .inr (some pairs.reverse)
  else
    advance
    let key ← expression .lowest
    demand .colon (.inr none) fun _ => do
      advance
      let value ← expression .lowest
      if key.isMissing || value.isMissing then return .inr none
      else if (← upcomingKind) = .rbrace then return .inl ((key, value) :: pairs)
      else demand .comma (.inr none) fun _ => return .inl ((key, value) :: pairs)

/-! ### Operands -/

/-- The greatest integer, `2 ^ 63 - 1`. -/
def greatestInteger : Nat := 0x7fffffffffffffff

/-- How many digits an integer may have, zeros in front included. -/
def greatestLength : Nat := 4300

/-- The integer that some digits spell, if it is not too long or too great. -/
def integerValue? (digits : List Char) : Option Int :=
  let value := Nat.ofDigitChars 10 digits 0
  if digits.length ≤ greatestLength ∧ value ≤ greatestInteger then some value else none

/-- An integer literal. -/
def integer (token : Token) : Parser Node :=
  match integerValue? token.literal.toList with
  | some value => return .integer token value
  | none => do
    complain (.badInteger token)
    return .missing

/-- A prefix operator and its operand. -/
def prefixed (token : Token) : Parser Node := do
  advance
  let right ← expression .prefixed
  return .prefixed token token.literal right

/-- An expression in parentheses. -/
def grouped : Parser Node := do
  advance
  let inner ← expression .lowest
  demand .rparen .missing fun _ => return inner

/-- `if (condition) consequence else alternative`, where the last part may be left out. -/
def conditional (token : Token) : Parser Node :=
  demand .lparen .missing fun _ => do
    advance
    let condition ← expression .lowest
    demand .rparen .missing fun _ =>
      demand .lbrace .missing fun brace => do
        let consequence ← block expression brace
        if (← upcomingKind) = .elseWord then
          advance
          demand .lbrace .missing fun brace => do
            let alternative ← block expression brace
            return .conditional token condition consequence alternative
        else return .conditional token condition consequence .missing

/-- `fn(parameters) body`. -/
def function (token : Token) : Parser Node :=
  demand .lparen .missing fun _ => do
    match ← parameters with
    | none => return .missing
    | some names =>
      demand .lbrace .missing fun brace => do
        let body ← block expression brace
        return .function token names body

/-- An array literal. -/
def array (token : Token) : Parser Node := do
  match ← items expression .rbracket with
  | none => return .missing
  | some elements => return .array token elements

/-- A hash literal. -/
def hash (token : Token) : Parser Node := do
  match ← iterate (morePairs expression) [] with
  | none => return .missing
  | some pairs => return .hash token pairs

/-- The parser for the operand that begins with a token, if one can. -/
def operand? (token : Token) : Option (Parser Node) :=
  match token.kind with
  | .ident => some (return .identifier token token.literal)
  | .int => some (integer token)
  | .string => some (return .string token token.literal)
  | .trueWord => some (return .boolean token true)
  | .falseWord => some (return .boolean token false)
  | .bang | .minus => some (prefixed expression token)
  | .lparen => some (grouped expression)
  | .ifWord => some (conditional expression token)
  | .fnWord => some (function expression token)
  | .lbracket => some (array expression token)
  | .lbrace => some (hash expression token)
  | _ => none

/-! ### Operators -/

/-- An operator behind its left operand; the current token is the operator. -/
def extend (left : Node) (token : Token) : Parser Node :=
  match token.kind with
  | .lparen => do
    match ← items expression .rparen with
    | none => return .missing
    | some arguments => return .call token left arguments
  | .lbracket => do
    advance
    let subscript ← expression .lowest
    demand .rbracket .missing fun _ => return .index token left subscript
  | _ => do
    advance
    let right ← expression (.ofKind token.kind)
    return .infixed token left token.literal right

/-- Takes up the operator that comes up if it binds more tightly than a level. -/
def climb (level : Level) (left : Node) : Parser (Node ⊕ Node) := do
  match ← upcoming with
  | none => return .inr left
  | some token =>
    if level.rank < (Level.ofKind token.kind).rank then
      advance
      return .inl (← extend expression left token)
    else return .inr left

end Constructs

/-- Expressions of a level, nested to a depth at most. -/
def expression : Nat → Expressions
  | 0, _ => tooDeep
  | depth + 1, level => do
    let token ← current
    match token.bind (operand? (expression depth)) with
    | none =>
      complain (.noOperand token)
      return .missing
    | some operand =>
      let left ← operand
      iterate (climb (expression depth) level) left

end Parse

/-- A program as far as it could be read, and the complaints in their order. -/
structure Parsed where
  program : Node
  complaints : List Complaint
  deriving Repr

/-- The program of a text.  There is none if the text nests expressions more deeply than
`depth`. -/
def parse (depth : Nat) (text : String) : Option Parsed :=
  (Parse.program (Parse.expression depth) (tokens text)).map fun r => ⟨r.value, r.complaints⟩

end Monkey
