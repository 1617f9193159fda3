/-!
# Tokens

The words of the language: what kinds of token there are, how each kind is
spelled, and which characters begin or continue one.

## Main definitions

* `Token.Kind` — the kinds of token, with `Kind.name` and `Kind.text`.
* `Token.Kind.ofWord` — keywords against identifiers.
* `Token.Kind.ofChar?` — the operators and delimiters of one character.
* `Token` — a kind with its literal text and its place.
-/

namespace Monkey

/-- The kinds of token. -/
inductive Token.Kind
  /-- A character that starts no token. -/
  | illegal
  /-- The end of the text. -/
  | eof
  | ident
  | int
  | string
  | assign
  | plus
  | minus
  | bang
  | asterisk
  | slash
  | lt
  | gt
  | eq
  | notEq
  | comma
  | semicolon
  | colon
  | lparen
  | rparen
  | lbrace
  | rbrace
  | lbracket
  | rbracket
  | fnWord
  | letWord
  | trueWord
  | falseWord
  | ifWord
  | elseWord
  | returnWord
  | forWord
  deriving DecidableEq, Repr, Inhabited

/-- A token: its kind, its text and the place of its first character.  The text
of a string is what stands between the quotes. -/
structure Token where
  kind : Token.Kind
  literal : String
  line : Nat
  column : Nat
  deriving DecidableEq, Repr, Inhabited

namespace Token

namespace Kind

/-- The name under which a kind is listed. -/
def name : Kind → String
  | illegal => "ILLEGAL"
  | eof => "EOF"
  | ident => "IDENT"
  | int => "INT"
  | string => "STRING"
  | assign => "ASSIGN"
  | plus => "PLUS"
  | minus => "MINUS"
  | bang => "BANG"
  | asterisk => "ASTERISK"
  | slash => "SLASH"
  | lt => "LT"
  | gt => "GT"
  | eq => "EQ"
  | notEq => "NOT_EQ"
  | comma => "COMMA"
  | semicolon => "SEMICOLON"
  | colon => "COLON"
  | lparen => "LPAREN"
  | rparen => "RPAREN"
  | lbrace => "LBRACE"
  | rbrace => "RBRACE"
  | lbracket => "LBRACKET"
  | rbracket => "RBRACKET"
  | fnWord => "FUNCTION"
  | letWord => "LET"
  | trueWord => "TRUE"
  | falseWord => "FALSE"
  | ifWord => "IF"
  | elseWord => "ELSE"
  | returnWord => "RETURN"
  | forWord => "FOR"

/-- The text that stands for a kind in a message: the spelling of an operator or
delimiter, the name of any other kind. -/
def text : Kind → String
  | assign => "="
  | plus => "+"
  | minus => "-"
  | bang => "!"
  | asterisk => "*"
  | slash => "/"
  | lt => "<"
  | gt => ">"
  | eq => "=="
  | notEq => "!="
  | comma => ","
  | semicolon => ";"
  | colon => ":"
  | lparen => "("
  | rparen => ")"
  | lbrace => "\x7b"
  | rbrace => "\x7d"
  | lbracket => "["
  | rbracket => "]"
  | kind => kind.name

/-- All kinds, in the order of their declaration. -/
def all : List Kind :=
  [illegal, eof, ident, int, string, assign, plus, minus, bang, asterisk, slash,
    lt, gt, eq, notEq, comma, semicolon, colon, lparen, rparen, lbrace, rbrace,
    lbracket, rbracket, fnWord, letWord, trueWord, falseWord, ifWord, elseWord,
    returnWord, forWord]

/-- The kind that is listed under a name. -/
def ofName? (name : String) : Option Kind :=
  all.find? (·.name = name)

/-- The kind of a word: its own kind for a keyword, `ident` for any other. -/
def ofWord (word : String) : Kind :=
  if word = "fn" then fnWord
  else if word = "let" then letWord
  else if word = "true" then trueWord
  else if word = "false" then falseWord
  else if word = "if" then ifWord
  else if word = "else" then elseWord
  else if word = "return" then returnWord
  else if word = "for" then forWord
  else ident

/-- The operator or delimiter that one character spells. -/
def ofChar? : Char → Option Kind
  | '=' => some assign
  | '+' => some plus
  | '-' => some minus
  | '!' => some bang
  | '*' => some asterisk
  | '/' => some slash
  | '<' => some lt
  | '>' => some gt
  | ',' => some comma
  | ';' => some semicolon
  | ':' => some colon
  | '(' => some lparen
  | ')' => some rparen
  | '{' => some lbrace
  | '}' => some rbrace
  | '[' => some lbracket
  | ']' => some rbracket
  | _ => none

theorem mem_all (kind : Kind) : kind ∈ all := by
  cases kind <;> decide

end Kind

/-! ### Characters -/

/-- The blanks between tokens: space, tab, line feed and carriage return. -/
def isBlank (c : Char) : Bool :=
  c = ' ' || c = '\t' || c = '\n' || c = '\r'

/-- The letters of an identifier: the ASCII letters and the underscore. -/
def isLetter (c : Char) : Bool :=
  ('a' ≤ c && c ≤ 'z') || ('A' ≤ c && c ≤ 'Z') || c = '_'

/-- The ASCII digits. -/
def isDigit (c : Char) : Bool :=
  '0' ≤ c && c ≤ '9'

/-- A character that continues a word. -/
def isWordPart (c : Char) : Bool :=
  isLetter c || isDigit c

end Token

end Monkey
