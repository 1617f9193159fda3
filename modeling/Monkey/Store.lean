import Monkey.Value.Basic

/-!
# The store

All the scopes that there are, the next identity to give out, and what has been printed.
A scope binds names to values and may lead to an outer scope, which is always an older
one.  Scopes are never removed, since functions keep the scope that they were made in.

## Main definitions

* `Scope` — bindings and the outer scope.
* `Store` — the scopes by number.
* `Store.lookup` — the value that a name has in a scope or in one around it.
* `Store.bind`, `Store.addScope`, `Store.issue`, `Store.print` — the ways a store changes.
-/

namespace Monkey

/-- A scope: its own bindings, in the order in which their names came first, and the scope
around it. -/
structure Scope where
  bindings : List (String × Value)
  outer : Option ScopeId
  deriving Repr, Inhabited

namespace Scope

/-- Bindings with one more: a binding of the same name is replaced where it stands. -/
def put : List (String × Value) → String → Value → List (String × Value)
  | [], name, v => [(name, v)]
  | b :: bs, name, v => if b.1 = name then (name, v) :: bs else b :: put bs name v

/-- Binds a name in a scope. -/
def set (s : Scope) (name : String) (v : Value) : Scope :=
  { s with bindings := put s.bindings name v }

end Scope

/-- The scopes by number, the next identity, and the text printed. -/
structure Store where
  scopes : Array Scope
  next : Identity
  printed : String
  deriving Repr, Inhabited

namespace Store

/-- A store without scopes. -/
def empty : Store := ⟨#[], 0, ""⟩

/-- The number that the next scope will have. -/
def size (s : Store) : ScopeId :=
  s.scopes.size

/-- Adds a scope without bindings. -/
def addScope (s : Store) (outer : Option ScopeId) : Store :=
  { s with scopes := s.scopes.push ⟨[], outer⟩ }

/-- Binds a name in a scope. -/
def bind (s : Store) (scope : ScopeId) (name : String) (v : Value) : Store :=
  { s with scopes := s.scopes.modify scope (·.set name v) }

/-- Gives out the next identity. -/
def issue (s : Store) : Store :=
  { s with next := s.next + 1 }

/-- Prints a line. -/
def print (s : Store) (line : String) : Store :=
  { s with printed := s.printed ++ line ++ "\n" }

/-- Forgets what has been printed. -/
def clearPrinted (s : Store) : Store :=
  { s with printed := "" }

/-- The value that a name has in a scope, or else in the nearest scope around it that
binds the name.  An outer scope is an older one, so the search ends. -/
def lookup (s : Store) (scope : ScopeId) (name : String) : Option Value :=
  match s.scopes[scope]? with
  | none => none
  | some here =>
    match here.bindings.lookup name with
    | some v => some v
    | none =>
      match here.outer with
      | none => none
      | some outer => if outer < scope then s.lookup outer name else none
termination_by scope

/-- The bindings that a scope has of its own. -/
def bindings (s : Store) (scope : ScopeId) : List (String × Value) :=
  (s.scopes[scope]?.map Scope.bindings).getD []

end Store

end Monkey
