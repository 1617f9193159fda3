import Monkey.Proofs.Syntax.Filled

/-!
# Vocabularies

A vocabulary is made of integers, names and builtins.  A tree keeps to it if the integers and the
names that stand in the tree are of it, and so does the tree of a text if the names of the text
are: the parser makes no names, and it makes no integers beyond the greatest one.

## Main definitions

* `Node.Mentions` — the names in a tree.
* `Vocabulary` — integers, names and builtins that lead to no others.
* `Node.Within`, `NamesWithin` — trees and texts that keep to a vocabulary.

## Main results

* `Node.within_of_children` — a tree keeps to a vocabulary if its children do.
* `within_of_parse` — the tree of a text keeps to the vocabulary of its names.
-/

namespace Monkey

/-- A name stands somewhere in a tree. -/
def Node.Mentions (n : Node) (name : String) : Prop :=
  ∃ token, n.HasPart (.identifier token name)

/-! ### Vocabularies -/

/-- Integers, names and builtins that lead to no others: the results of arithmetic are of the
integers, so are lengths if they can be asked for, and a name leads to the builtin of that
name. -/
structure Vocabulary where
  integer : Int → Prop
  name : String → Prop
  builtin : Builtin → Prop
  wrapped : ∀ n : Int, integer (wrap64 n)
  length : builtin .len → ∀ n : Nat, integer n
  named : ∀ b : Builtin, name b.name → builtin b

/-- All integers, names and builtins. -/
def Vocabulary.all : Vocabulary where
  integer _ := True
  name _ := True
  builtin _ := True
  wrapped _ := trivial
  length _ _ := trivial
  named _ _ := trivial

variable {V : Vocabulary}

namespace Node

/-- The integers and the names in a tree are of a vocabulary. -/
structure Within (V : Vocabulary) (n : Node) : Prop where
  integer : ∀ {token : Token} {k : Int}, n.HasPart (.integer token k) → V.integer k
  name : ∀ {token : Token} {name : String}, n.HasPart (.identifier token name) → V.name name

variable {n m : Node}

theorem within_all (n : Node) : n.Within .all := ⟨fun _ => trivial, fun _ => trivial⟩

theorem Within.child (h : n.Within V) (hm : m ∈ n.children) : m.Within V :=
  ⟨fun hp => h.integer (.inside hm hp), fun hp => h.name (.inside hm hp)⟩

/-- Whether a tree is an integer or a name. -/
def isAtom : Node → Bool
  | integer .. | identifier .. => true
  | _ => false

/-- A tree that is neither an integer nor a name keeps to a vocabulary if its children do. -/
theorem within_of_children (hn : n.isAtom = false) (h : ∀ m ∈ n.children, m.Within V) :
    n.Within V := by
  constructor
  · intro token k hp
    cases hp with
    | self => cases hn
    | inside mem has => exact (h _ mem).integer has
  · intro token x hp
    cases hp with
    | self => cases hn
    | inside mem has => exact (h _ mem).name has

theorem within_missing : missing.Within V :=
  within_of_children rfl nofun

theorem within_identifier {token : Token} {x : String} (h : V.name x) :
    (identifier token x).Within V := by
  constructor
  · intro token k hp
    cases hp with
    | inside mem has => cases mem
  · intro token x hp
    cases hp with
    | self => exact h
    | inside mem has => cases mem

theorem within_integer {token : Token} {k : Int} (h : V.integer k) :
    (integer token k).Within V := by
  constructor
  · intro token k hp
    cases hp with
    | self => exact h
    | inside mem has => cases mem
  · intro token x hp
    cases hp with
    | inside mem has => cases mem

/-- A part that may be missing keeps to the vocabulary of the tree if it is a child wherever it
is there. -/
theorem Within.part (h : n.Within V) (hm : m.isPresent → m ∈ n.children) : m.Within V := by
  cases hp : m.isPresent with
  | true => exact h.child (hm hp)
  | false =>
    have hmissing : m = missing := by simpa [isPresent] using hp
    exact hmissing ▸ within_missing

end Node

/-! ### The tree of a text -/

/-- The names in a text are of a vocabulary. -/
def NamesWithin (V : Vocabulary) (text : String) : Prop :=
  ∀ t ∈ tokens text, t.kind = .ident → V.name t.literal

/-- A vocabulary has the integers that a text may spell. -/
def Vocabulary.HasLiterals (V : Vocabulary) : Prop :=
  ∀ n : Nat, n ≤ 0x7fffffffffffffff → V.integer n

/-- The tree of a text that is read without complaints keeps to the vocabulary of its names. -/
theorem within_of_parse (hV : V.HasLiterals) {text : String} (names : NamesWithin V text)
    {depth : Nat} {p : Parsed} (h : parse depth text = some p) (hc : p.complaints = []) :
    p.program.Within V := by
  obtain ⟨ns, hns, -⟩ := reads_of_parse h hc
  constructor
  · intro token k hk
    obtain hself | hread := readIn_of_parse h hc hk
    · rw [hns] at hself
      cases hself
    · obtain ⟨-, -, rfl, -, hle⟩ := Phrase.filled_of_readIn hread
      exact hV _ (Int.ofNat_le.mp hle)
  · intro token x hx
    obtain hself | hread := readIn_of_parse h hc hx
    · rw [hns] at hself
      cases hself
    · obtain ⟨hmem, hkind, rfl⟩ := Phrase.filled_of_readIn hread
      exact names _ hmem hkind

end Monkey
