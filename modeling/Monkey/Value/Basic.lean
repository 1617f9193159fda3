import Monkey.Syntax.Node

/-!
# Values

What programs compute with.  Arrays, hashes and functions are objects: each has an
identity of its own, by which `==` tells it from every other one.  Two more kinds are
signals, errors and the results of `return`: they end what is being evaluated and are
never stored by a program, but a host may bind them to a name.

## Main definitions

* `Value`, `Value.Kind` — values and their kinds.
* `Fault` — the causes of errors, with `Fault.message`.
* `Builtin` — the functions that are always there.
* `Value.isTruthy`, `Value.isSignal`, `Value.unwrapped` — the three questions that
  evaluation asks of a value.
* `Key`, `Value.key?` — what a hash tells its entries apart by.
-/

namespace Monkey

/-- The identity of an object. -/
abbrev Identity := Nat

/-- The number of a scope. -/
abbrev ScopeId := Nat

/-- The kinds of value. -/
inductive Value.Kind
  | integer
  | boolean
  | null
  | string
  | array
  | hash
  | function
  | builtin
  | returned
  | error
  deriving DecidableEq, Repr

/-- The name of a kind in messages. -/
def Value.Kind.name : Value.Kind → String
  | integer => "INTEGER"
  | boolean => "BOOLEAN"
  | null => "NULL"
  | string => "STRING"
  | array => "ARRAY"
  | hash => "HASH"
  | function => "FUNCTION"
  | builtin => "BUILTIN"
  | returned => "RETURN_VALUE"
  | error => "ERROR"

/-! ### Builtins -/

/-- The functions that are always there, in alphabetical order. -/
inductive Builtin
  | first
  | last
  | len
  | push
  | puts
  | rest
  deriving DecidableEq, Repr

namespace Builtin

/-- The name of a builtin. -/
def name : Builtin → String
  | first => "first"
  | last => "last"
  | len => "len"
  | push => "push"
  | puts => "puts"
  | rest => "rest"

/-- All builtins, in alphabetical order. -/
def all : List Builtin :=
  [first, last, len, push, puts, rest]

/-- The builtin of a name. -/
def ofName? (name : String) : Option Builtin :=
  all.find? (·.name = name)

@[simp] theorem ofName?_name (b : Builtin) : ofName? b.name = some b := by
  cases b <;> decide

end Builtin

/-! ### Faults -/

/-- Why an error arises. -/
inductive Fault
  | identifierNotFound (name : String)
  | notFunction (kind : Value.Kind)
  | unknownPrefix (operator : String) (right : Value.Kind)
  | unknownInfix (left : Value.Kind) (operator : String) (right : Value.Kind)
  | typeMismatch (left : Value.Kind) (operator : String) (right : Value.Kind)
  | divisionByZero
  | indexNotSupported (kind : Value.Kind)
  | unusableKey (kind : Value.Kind)
  | argumentCount (got want : Nat)
  | noLength (kind : Value.Kind)
  | notArray (builtin : Builtin) (kind : Value.Kind)
  /-- An error of the host's own making. -/
  | raised (message : String)
  deriving DecidableEq, Repr

/-- The wording of a fault. -/
def Fault.message : Fault → String
  | identifierNotFound name => "identifier not found: " ++ name
  | notFunction kind => "not a function " ++ kind.name
  | unknownPrefix operator right => "unknown operator: " ++ operator ++ right.name
  | unknownInfix left operator right =>
    "unknown operator: " ++ left.name ++ " " ++ operator ++ " " ++ right.name
  | typeMismatch left operator right =>
    "type mismatch: " ++ left.name ++ " " ++ operator ++ " " ++ right.name
  | divisionByZero => "division by zero: INTEGER / INTEGER"
  | indexNotSupported kind => "index operator not supported: " ++ kind.name
  | unusableKey kind => "unusable as hash key: " ++ kind.name
  | argumentCount got want =>
    "wrong number of arguments. got=" ++ toString got ++ ", want=" ++ toString want
  | noLength kind => "argument to 'len' not supported, got " ++ kind.name
  | notArray builtin kind => "argument to '" ++ builtin.name ++ "' must be ARRAY, got " ++ kind.name
  | raised message => message

/-! ### Values -/

/-- Values. -/
inductive Value
  | integer (value : Int)
  | boolean (value : Bool)
  | null
  | string (value : String)
  | array (id : Identity) (elements : List Value)
  /-- A hash with its entries in the order in which their keys came first. -/
  | hash (id : Identity) (entries : List (Value × Value))
  /-- A function with the scope that it was made in. -/
  | function (id : Identity) (parameters : List Node) (body : Node) (scope : ScopeId)
  | builtin (builtin : Builtin)
  /-- The operand of a `return` on its way out of the function. -/
  | returned (id : Identity) (value : Value)
  /-- An error on its way out of the program. -/
  | error (id : Identity) (fault : Fault)
  deriving Repr, Inhabited

namespace Value

/-- The kind of a value. -/
def kind : Value → Kind
  | integer _ => .integer
  | boolean _ => .boolean
  | null => .null
  | string _ => .string
  | array .. => .array
  | hash .. => .hash
  | function .. => .function
  | builtin _ => .builtin
  | returned .. => .returned
  | error .. => .error

/-- Whether a condition holds of a value: only `false` and `null` fail it. -/
def isTruthy : Value → Bool
  | boolean b => b
  | null => false
  | _ => true

/-- Whether a value ends what is being evaluated. -/
def isSignal : Value → Bool
  | returned .. | error .. => true
  | _ => false

/-- The operand of a `return`; any other value as it is. -/
def unwrapped : Value → Value
  | returned _ v => v
  | v => v

end Value

/-! ### Keys -/

/-- What a hash tells its entries apart by: the kind and the content of a key. -/
inductive Key
  | integer (value : Int)
  | boolean (value : Bool)
  | string (value : String)
  deriving DecidableEq, Repr

namespace Key

/-- The kind of the values that have a key. -/
def kind : Key → Value.Kind
  | integer _ => .integer
  | boolean _ => .boolean
  | string _ => .string

/-- The content of a key as text; a boolean counts as 1 or 0. -/
def text : Key → String
  | integer n => toString n
  | boolean b => if b then "1" else "0"
  | string s => s

end Key

namespace Value

/-- The key of a value: integers, booleans and strings have one. -/
def key? : Value → Option Key
  | integer n => some (.integer n)
  | boolean b => some (.boolean b)
  | string s => some (.string s)
  | _ => none

/-- The entries of a hash with one more: an entry of the same key is replaced where it
stands, and a new one comes last. -/
def putEntry : List (Value × Value) → Value → Value → List (Value × Value)
  | [], k, v => [(k, v)]
  | e :: es, k, v => if e.1.key? = k.key? then (k, v) :: es else e :: putEntry es k v

/-- The value that some entries hold under a key. -/
def valueUnder? (entries : List (Value × Value)) (key : Key) : Option Value :=
  (entries.find? fun e => e.1.key? = some key).map Prod.snd

end Value

end Monkey
