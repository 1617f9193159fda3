import Monkey.Token.Basic

/-!
# Syntax trees

A syntax tree keeps, at each node, the token that the node was built from.  One
type serves for programs, statements and expressions, because a tree made by hand
may hold any of them anywhere, even where a name is bound.  A child that could not be
read, or that is left out, is the node `missing`.

## Main definitions

* `Node`, `Node.Kind` — the trees, and the kinds of node.
* `Node.token?`, `Node.children` — the token of a node and its children.
* `Node.Content`, `Node.content?` — what a node holds where it is taken for a name.
* `Node.literal` — the literal text of a node's token.
* `Node.mapTokens` — a change of all tokens of a tree.
* `Node.preorder` — the nodes of a tree with their depth.

## Main results

* `Node.sizeOf_lt_of_mem_children` — a child is smaller than its parent.
-/

namespace Monkey

/-- Syntax trees. -/
inductive Node
  /-- A child that is absent. -/
  | missing
  /-- A node of no kind: it has a token, and neither text nor meaning. -/
  | bare (token : Token)
  | program (statements : List Node)
  | letStatement (token : Token) (name value : Node)
  | returnStatement (token : Token) (value : Node)
  | expressionStatement (token : Token) (expression : Node)
  | block (token : Token) (statements : List Node)
  | identifier (token : Token) (name : String)
  | integer (token : Token) (value : Int)
  | boolean (token : Token) (value : Bool)
  | string (token : Token) (value : String)
  | prefixed (token : Token) (operator : String) (right : Node)
  | infixed (token : Token) (left : Node) (operator : String) (right : Node)
  | conditional (token : Token) (condition consequence alternative : Node)
  | function (token : Token) (parameters : List Node) (body : Node)
  | call (token : Token) (callee : Node) (arguments : List Node)
  | array (token : Token) (elements : List Node)
  | hash (token : Token) (pairs : List (Node × Node))
  | index (token : Token) (left subscript : Node)
  deriving Repr, Inhabited

namespace Node

/-- Whether a child is absent. -/
def isMissing : Node → Bool
  | missing => true
  | _ => false

/-- Whether a child is there. -/
def isPresent (n : Node) : Bool :=
  !n.isMissing

@[simp] theorem isMissing_iff {n : Node} : n.isMissing = true ↔ n = missing := by
  cases n <;> simp [isMissing]

@[simp] theorem isPresent_iff {n : Node} : n.isPresent = true ↔ n ≠ missing := by
  cases n <;> simp [isPresent, isMissing]

/-- The token that a node was built from.  A program has none. -/
def token? : Node → Option Token
  | missing | program _ => none
  | bare token | letStatement token _ _ | returnStatement token _
  | expressionStatement token _ | block token _ | identifier token _ | integer token _
  | boolean token _ | string token _ | prefixed token _ _ | infixed token _ _ _
  | conditional token _ _ _ | function token _ _ | call token _ _ | array token _
  | hash token _ | index token _ _ => some token

/-- The children of a node that are there, in order. -/
def children : Node → List Node
  | missing | bare _ | identifier _ _ | integer _ _ | boolean _ _ | string _ _ => []
  | program statements | block _ statements => statements
  | letStatement _ name value => [name, value].filter isPresent
  | returnStatement _ value => [value].filter isPresent
  | expressionStatement _ expression => [expression].filter isPresent
  | prefixed _ _ right => [right].filter isPresent
  | infixed _ left _ right => [left, right].filter isPresent
  | conditional _ condition consequence alternative =>
    [condition, consequence, alternative].filter isPresent
  | function _ parameters body => parameters ++ [body].filter isPresent
  | call _ callee arguments => [callee].filter isPresent ++ arguments
  | array _ elements => elements
  | hash _ pairs => pairs.flatMap fun (key, value) => [key, value]
  | index _ left subscript => [left, subscript].filter isPresent

/-! ### Kinds and contents -/

/-- The kinds of node. -/
inductive Kind
  /-- The kind of what is absent. -/
  | none
  /-- The kind of a node of no kind. -/
  | bare
  | program
  | letStatement
  | returnStatement
  | expressionStatement
  | block
  | identifier
  | integer
  | boolean
  | string
  | prefixed
  | infixed
  | conditional
  | function
  | call
  | array
  | hash
  | index
  deriving DecidableEq, Repr

/-- The name of a kind in listings and messages. -/
def Kind.name : Kind → String
  | none => "NoneType"
  | bare => "Node"
  | program => "Program"
  | letStatement => "LetStatement"
  | returnStatement => "ReturnStatement"
  | expressionStatement => "ExpressionStatement"
  | block => "BlockStatement"
  | identifier => "Identifier"
  | integer => "IntegerLiteral"
  | boolean => "BooleanLiteral"
  | string => "StringLiteral"
  | prefixed => "PrefixExpression"
  | infixed => "InfixExpression"
  | conditional => "IfExpression"
  | function => "FunctionLiteral"
  | call => "CallExpression"
  | array => "ArrayLiteral"
  | hash => "HashLiteral"
  | index => "IndexExpression"

/-- The kind of a node. -/
def kind : Node → Kind
  | missing => .none
  | bare _ => .bare
  | program _ => .program
  | letStatement .. => .letStatement
  | returnStatement .. => .returnStatement
  | expressionStatement .. => .expressionStatement
  | block .. => .block
  | identifier .. => .identifier
  | integer .. => .integer
  | boolean .. => .boolean
  | string .. => .string
  | prefixed .. => .prefixed
  | infixed .. => .infixed
  | conditional .. => .conditional
  | function .. => .function
  | call .. => .call
  | array .. => .array
  | hash .. => .hash
  | index .. => .index

/-- What a node holds where it is taken for a name.  Only a text can be asked for
afterwards. -/
inductive Content
  | text (name : String)
  | integer
  | boolean
  | node (kind : Kind)
  deriving DecidableEq, Repr

/-- The name of a sort of content in messages. -/
def Content.sort : Content → String
  | text _ => "str"
  | integer => "int"
  | boolean => "bool"
  | node kind => kind.name

/-- What a node holds where it is taken for a name, if it holds anything. -/
def content? : Node → Option Content
  | identifier _ name => some (.text name)
  | string _ value => some (.text value)
  | integer .. => some .integer
  | boolean .. => some .boolean
  | letStatement _ _ value => some (.node value.kind)
  | _ => none

/-- The literal text of a node's token.  A program has that of its first
statement. -/
def literal : Node → String
  | missing | program [] => ""
  | program (statement :: _) => statement.literal
  | bare token | letStatement token _ _ | returnStatement token _
  | expressionStatement token _ | block token _ | identifier token _ | integer token _
  | boolean token _ | string token _ | prefixed token _ _ | infixed token _ _ _
  | conditional token _ _ _ | function token _ _ | call token _ _ | array token _
  | hash token _ | index token _ _ => token.literal

/-- A child is smaller than its parent. -/
theorem sizeOf_lt_of_mem_children {n m : Node} (h : m ∈ n.children) : sizeOf m < sizeOf n := by
  cases n
  case program ss =>
    have := List.sizeOf_lt_of_mem (show m ∈ ss from h)
    simp only [program.sizeOf_spec]; omega
  case block t ss =>
    have := List.sizeOf_lt_of_mem (show m ∈ ss from h)
    simp only [block.sizeOf_spec]; omega
  case array t es =>
    have := List.sizeOf_lt_of_mem (show m ∈ es from h)
    simp only [array.sizeOf_spec]; omega
  case hash t ps =>
    simp only [children, List.mem_flatMap, Prod.exists, List.mem_cons, List.not_mem_nil,
      or_false] at h
    obtain ⟨k, v, hp, hm⟩ := h
    have := List.sizeOf_lt_of_mem hp
    simp only [Prod.mk.sizeOf_spec] at this
    simp only [hash.sizeOf_spec]
    rcases hm with rfl | rfl <;> omega
  case call t f as =>
    simp only [children, List.mem_append, List.mem_filter, List.mem_singleton] at h
    rcases h with ⟨rfl, -⟩ | h
    · simp only [call.sizeOf_spec]; omega
    · have := List.sizeOf_lt_of_mem h
      simp only [call.sizeOf_spec]; omega
  case function t ps b =>
    simp only [children, List.mem_append, List.mem_filter, List.mem_singleton] at h
    rcases h with h | ⟨rfl, -⟩
    · have := List.sizeOf_lt_of_mem h
      simp only [function.sizeOf_spec]; omega
    · simp only [function.sizeOf_spec]; omega
  all_goals
    simp only [children, List.not_mem_nil, List.mem_filter, List.mem_cons, or_false] at h
  all_goals
    rcases h with ⟨rfl | rfl | rfl, -⟩ <;> simp +arith

/-- The nodes of a tree from the root down, each with its depth. -/
def preorder (n : Node) (depth : Nat) : List (Nat × Node) :=
  (depth, n) :: n.children.attach.flatMap fun ⟨m, _⟩ => m.preorder (depth + 1)
termination_by sizeOf n
decreasing_by exact sizeOf_lt_of_mem_children (by assumption)

/-! ### Changing the tokens -/

mutual

/-- A tree with all its tokens changed. -/
def mapTokens (f : Token → Token) : Node → Node
  | missing => missing
  | bare token => bare (f token)
  | program statements => program (mapTokensAll f statements)
  | letStatement token name value =>
    letStatement (f token) (mapTokens f name) (mapTokens f value)
  | returnStatement token value => returnStatement (f token) (mapTokens f value)
  | expressionStatement token expression =>
    expressionStatement (f token) (mapTokens f expression)
  | block token statements => block (f token) (mapTokensAll f statements)
  | identifier token name => identifier (f token) name
  | integer token value => integer (f token) value
  | boolean token value => boolean (f token) value
  | string token value => string (f token) value
  | prefixed token operator right => prefixed (f token) operator (mapTokens f right)
  | infixed token left operator right =>
    infixed (f token) (mapTokens f left) operator (mapTokens f right)
  | conditional token condition consequence alternative =>
    conditional (f token) (mapTokens f condition) (mapTokens f consequence)
      (mapTokens f alternative)
  | function token parameters body =>
    function (f token) (mapTokensAll f parameters) (mapTokens f body)
  | call token callee arguments =>
    call (f token) (mapTokens f callee) (mapTokensAll f arguments)
  | array token elements => array (f token) (mapTokensAll f elements)
  | hash token pairs => hash (f token) (mapTokensPairs f pairs)
  | index token left subscript => index (f token) (mapTokens f left) (mapTokens f subscript)

/-- A list of trees with all tokens changed. -/
def mapTokensAll (f : Token → Token) : List Node → List Node
  | [] => []
  | n :: ns => mapTokens f n :: mapTokensAll f ns

/-- The pairs of a hash with all tokens changed. -/
def mapTokensPairs (f : Token → Token) : List (Node × Node) → List (Node × Node)
  | [] => []
  | (key, value) :: pairs => (mapTokens f key, mapTokens f value) :: mapTokensPairs f pairs

end

end Node

end Monkey
