import Monkey.Proofs.Syntax.Relocate
import Monkey.Store
import Monkey.Value.Inspect
import Monkey.Value.Operator

/-!
# Values do not depend on places

The only tokens inside of values are those of functions, in their parameters and bodies.  Nothing
that is asked of a value depends on the places of tokens: its kind, its key, its text, and what
the operators make of it.

## Main definitions

* `Value.mapTokens`, `Store.mapTokens` — values and stores with all tokens changed.

## Main results

* `Node.text_mapTokens` — the text of a tree.
* `Value.inspect?_mapTokens` — the text of a value, and what stops it from being shown.
* `Value.applyInfix_mapTokens`, `Value.subscript_mapTokens` — the operators.
* `Store.lookup_mapTokens`, `Store.bind_mapTokens` — names.
-/

namespace Monkey

/-! ### Trees -/

namespace Node

theorem kind_mapTokens (f : Token → Token) (n : Node) : (n.mapTokens f).kind = n.kind := by
  cases n <;> rfl

theorem content?_mapTokens (f : Token → Token) (n : Node) :
    (n.mapTokens f).content? = n.content? := by
  cases n with
  | letStatement token name value =>
    simp only [mapTokens, content?, kind_mapTokens]
  | _ => rfl

variable (f : Relocation)

mutual

/-- The text of a tree does not depend on places. -/
theorem text_mapTokens (n : Node) : (n.mapTokens f.move).text = n.text := by
  cases n <;>
    simp only [mapTokens, text, f.literal_move, isMissing_mapTokens, text_mapTokens,
      texts_mapTokensAll, pairTexts_mapTokensPairs]

theorem texts_mapTokensAll (ns : List Node) : texts (mapTokensAll f.move ns) = texts ns := by
  cases ns with
  | nil => rfl
  | cons n ns => rw [mapTokensAll, texts, texts, text_mapTokens, texts_mapTokensAll]

theorem pairTexts_mapTokensPairs (ps : List (Node × Node)) :
    pairTexts (mapTokensPairs f.move ps) = pairTexts ps := by
  cases ps with
  | nil => rfl
  | cons p ps =>
    rw [mapTokensPairs, pairTexts, pairTexts, text_mapTokens, text_mapTokens,
      pairTexts_mapTokensPairs]

end

theorem filter_isPresent_map (ns : List Node) :
    (ns.map (mapTokens f.move)).filter isPresent =
      (ns.filter isPresent).map (mapTokens f.move) := by
  rw [List.filter_map]
  congr 1
  exact List.filter_congr fun n _ => isPresent_mapTokens n

theorem children_mapTokens (n : Node) :
    (n.mapTokens f.move).children = n.children.map (mapTokens f.move) := by
  cases n with
  | hash token pairs =>
    simp only [mapTokens, children, mapTokensPairs_eq_map, List.flatMap_map, List.map_flatMap]
    rfl
  | function token parameters body =>
    simp only [mapTokens, children, mapTokensAll_eq_map, List.map_append]
    rw [← filter_isPresent_map, List.map_singleton]
  | call token callee arguments =>
    simp only [mapTokens, children, mapTokensAll_eq_map, List.map_append]
    rw [← filter_isPresent_map, List.map_singleton]
  | program statements | block token statements | array token elements =>
    exact mapTokensAll_eq_map _
  | missing | bare token | identifier token name | integer token value | boolean token value
  | string token value => rfl
  | letStatement token name value | returnStatement token value
  | expressionStatement token expression | prefixed token operator right
  | infixed token left operator right | conditional token condition consequence alternative
  | index token left subscript =>
    simp only [mapTokens, children]
    rw [← filter_isPresent_map]
    rfl

theorem textParts_mapTokens (n : Node) :
    (n.mapTokens f.move).textParts = n.textParts.map (mapTokens f.move) := by
  have hchildren := children_mapTokens f n
  cases n with
  | call token callee arguments =>
    simp only [mapTokens, textParts, mapTokensAll_eq_map, List.map_append]
    rw [← filter_isPresent_map, List.map_singleton]
  | _ => exact hchildren

theorem textObstacle?_mapTokens (depth : Nat) (n : Node) :
    (n.mapTokens f.move).textObstacle? depth = n.textObstacle? depth := by
  induction depth generalizing n with
  | zero => cases n <;> rfl
  | succ depth ih =>
    have hparts : (n.mapTokens f.move).textParts.findSome? (textObstacle? depth) =
        n.textParts.findSome? (textObstacle? depth) := by
      rw [textParts_mapTokens, List.findSome?_map]
      exact congrArg (n.textParts.findSome? ·) (funext ih)
    cases n <;> first | rfl | exact hparts

end Node

/-! ### Values -/

namespace Value

mutual

/-- A value with all its tokens changed. -/
def mapTokens (f : Token → Token) : Value → Value
  | integer n => integer n
  | boolean b => boolean b
  | null => null
  | string s => string s
  | array id elements => array id (mapTokensAll f elements)
  | hash id entries => hash id (mapTokensEntries f entries)
  | function id parameters body scope =>
    function id (Node.mapTokensAll f parameters) (Node.mapTokens f body) scope
  | builtin b => builtin b
  | returned id v => returned id (mapTokens f v)
  | error id fault => error id fault

/-- Values with all tokens changed. -/
def mapTokensAll (f : Token → Token) : List Value → List Value
  | [] => []
  | v :: vs => mapTokens f v :: mapTokensAll f vs

/-- The entries of a hash with all tokens changed. -/
def mapTokensEntries (f : Token → Token) : List (Value × Value) → List (Value × Value)
  | [] => []
  | (k, v) :: es => (mapTokens f k, mapTokens f v) :: mapTokensEntries f es

end

section

variable (f : Token → Token)

theorem mapTokensAll_eq_map (vs : List Value) : mapTokensAll f vs = vs.map (mapTokens f) := by
  induction vs with
  | nil => rfl
  | cons v vs ih => rw [mapTokensAll, List.map_cons, ih]

theorem mapTokensEntries_eq_map (es : List (Value × Value)) :
    mapTokensEntries f es = es.map (Prod.map (mapTokens f) (mapTokens f)) := by
  induction es with
  | nil => rfl
  | cons e es ih => rw [mapTokensEntries, List.map_cons, ih, Prod.map]

@[simp] theorem kind_mapTokens (v : Value) : (v.mapTokens f).kind = v.kind := by
  cases v <;> rfl

@[simp] theorem isSignal_mapTokens (v : Value) : (v.mapTokens f).isSignal = v.isSignal := by
  cases v <;> rfl

@[simp] theorem isTruthy_mapTokens (v : Value) : (v.mapTokens f).isTruthy = v.isTruthy := by
  cases v <;> rfl

@[simp] theorem key?_mapTokens (v : Value) : (v.mapTokens f).key? = v.key? := by
  cases v <;> rfl

theorem unwrapped_mapTokens (v : Value) : (v.mapTokens f).unwrapped = v.unwrapped.mapTokens f := by
  cases v <;> rfl

/-! ### Operators -/

theorem applyPrefix_mapTokens (operator : String) (v : Value) :
    applyPrefix operator (v.mapTokens f) = (applyPrefix operator v).map (mapTokens f) := by
  unfold applyPrefix
  split
  · rw [isTruthy_mapTokens]
    rfl
  · next heq =>
    cases v <;> cases heq
    rfl
  · next hbang hminus =>
    split
    · contradiction
    · exact absurd rfl (hminus _ rfl)
    · rw [kind_mapTokens]
      rfl

theorem sameObject_mapTokens (v w : Value) :
    (v.mapTokens f).sameObject (w.mapTokens f) = v.sameObject w := by
  cases v <;> cases w <;> rfl

theorem integerInfix_mapTokens (operator : String) (a b : Int) :
    (integerInfix operator a b).map (mapTokens f) = integerInfix operator a b := by
  unfold integerInfix
  split
  case h_4 => split <;> rfl
  all_goals rfl

theorem stringInfix_mapTokens (operator a b : String) :
    (stringInfix operator a b).map (mapTokens f) = stringInfix operator a b := by
  unfold stringInfix
  split <;> rfl

theorem otherInfix_mapTokens (operator : String) (v w : Value) :
    otherInfix operator (v.mapTokens f) (w.mapTokens f) =
      (otherInfix operator v w).map (mapTokens f) := by
  unfold otherInfix
  rw [sameObject_mapTokens, kind_mapTokens, kind_mapTokens]
  split
  · rfl
  · rfl
  · split <;> rfl

theorem applyInfix_mapTokens (operator : String) (v w : Value) :
    applyInfix operator (v.mapTokens f) (w.mapTokens f) =
      (applyInfix operator v w).map (mapTokens f) := by
  have hother := otherInfix_mapTokens f operator v w
  cases v with
  | integer a =>
    cases w with
    | integer b => exact (integerInfix_mapTokens f operator a b).symm
    | _ => exact hother
  | string a =>
    cases w with
    | string b => exact (stringInfix_mapTokens f operator a b).symm
    | _ => exact hother
  | _ => exact hother

theorem putEntry_mapTokens (es : List (Value × Value)) (k v : Value) :
    putEntry (es.map (Prod.map (mapTokens f) (mapTokens f))) (k.mapTokens f) (v.mapTokens f) =
      (putEntry es k v).map (Prod.map (mapTokens f) (mapTokens f)) := by
  induction es with
  | nil => rfl
  | cons e es ih =>
    simp only [List.map_cons, putEntry, Prod.map_fst, key?_mapTokens]
    split
    · rfl
    · rw [ih]
      rfl

theorem valueUnder?_mapTokens (es : List (Value × Value)) (key : Key) :
    valueUnder? (es.map (Prod.map (mapTokens f) (mapTokens f))) key =
      (valueUnder? es key).map (mapTokens f) := by
  have hfind : (fun e : Value × Value => decide (e.1.key? = some key)) ∘
      Prod.map (mapTokens f) (mapTokens f) = fun e => decide (e.1.key? = some key) := by
    funext e
    simp only [Function.comp_apply, Prod.map_fst, key?_mapTokens]
  unfold valueUnder?
  rw [List.find?_map, hfind, Option.map_map, Option.map_map]
  rfl

theorem getD_null_mapTokens (o : Option Value) :
    (o.map (mapTokens f)).getD null = (o.getD null).mapTokens f := by
  cases o <;> rfl

theorem subscript_mapTokens (v w : Value) :
    (v.mapTokens f).subscript (w.mapTokens f) = (v.subscript w).map (mapTokens f) := by
  cases v with
  | array id elements =>
    cases w with
    | integer i =>
      simp only [mapTokens, subscript, Except.map]
      split
      · rfl
      · rw [mapTokensAll_eq_map, List.getElem?_map, getD_null_mapTokens]
    | _ => rfl
  | hash id entries =>
    simp only [mapTokens, subscript, key?_mapTokens, kind_mapTokens]
    split
    · rfl
    · rw [mapTokensEntries_eq_map, valueUnder?_mapTokens, getD_null_mapTokens]
      rfl
  | _ => rfl

end

/-! ### Texts -/

variable (f : Relocation)

mutual

/-- The text of a value does not depend on places. -/
theorem inspect_mapTokens (v : Value) : (v.mapTokens f.move).inspect = v.inspect := by
  cases v <;>
    simp only [mapTokens, inspect, Node.texts_mapTokensAll, Node.text_mapTokens,
      inspect_mapTokens, inspectAll_mapTokensAll, inspectEntries_mapTokensEntries]

theorem inspectAll_mapTokensAll (vs : List Value) :
    inspectAll (mapTokensAll f.move vs) = inspectAll vs := by
  cases vs with
  | nil => rfl
  | cons v vs => rw [mapTokensAll, inspectAll, inspectAll, inspect_mapTokens,
      inspectAll_mapTokensAll]

theorem inspectEntries_mapTokensEntries (es : List (Value × Value)) :
    inspectEntries (mapTokensEntries f.move es) = inspectEntries es := by
  cases es with
  | nil => rfl
  | cons e es =>
    rw [mapTokensEntries, inspectEntries, inspectEntries, inspect_mapTokens, inspect_mapTokens,
      inspectEntries_mapTokensEntries]

end

theorem obstacle?_mapTokens (depth : Nat) (v : Value) :
    (v.mapTokens f.move).obstacle? depth = v.obstacle? depth := by
  induction depth generalizing v with
  | zero => rfl
  | succ depth ih =>
    cases v with
    | array id elements =>
      simp only [mapTokens, obstacle?, mapTokensAll_eq_map, List.findSome?_map]
      exact congrArg (elements.findSome? ·) (funext ih)
    | hash id entries =>
      simp only [mapTokens, obstacle?, mapTokensEntries_eq_map, List.findSome?_map]
      refine congrArg (entries.findSome? ·) (funext fun e => ?_)
      simp only [Function.comp_apply, Prod.map, ih]
    | function id parameters body scope =>
      simp only [mapTokens, obstacle?, Node.mapTokensAll_eq_map]
      rw [← List.map_singleton (f := Node.mapTokens f.move), ← List.map_append,
        List.findSome?_map]
      exact congrArg ((parameters ++ [body]).findSome? ·)
        (funext (Node.textObstacle?_mapTokens f depth))
    | returned id v => exact ih v
    | _ => rfl

theorem inspect?_mapTokens (depth : Nat) (v : Value) :
    (v.mapTokens f.move).inspect? depth = v.inspect? depth := by
  rw [inspect?, inspect?, obstacle?_mapTokens, inspect_mapTokens]

end Value

/-! ### Stores -/

/-- A scope with all tokens in its values changed. -/
def Scope.mapTokens (f : Token → Token) (c : Scope) : Scope :=
  { c with bindings := c.bindings.map (Prod.map id (Value.mapTokens f)) }

theorem Scope.set_mapTokens (f : Token → Token) (c : Scope) (name : String) (v : Value) :
    (c.mapTokens f).set name (v.mapTokens f) = (c.set name v).mapTokens f := by
  have hput : ∀ bs : List (String × Value),
      put (bs.map (Prod.map id (Value.mapTokens f))) name (v.mapTokens f) =
        (put bs name v).map (Prod.map id (Value.mapTokens f)) := by
    intro bs
    induction bs with
    | nil => rfl
    | cons b bs ih =>
      simp only [List.map_cons, put, Prod.map_fst, id]
      split
      · rfl
      · rw [ih]
        rfl
  simp only [set, mapTokens, hput]

namespace Store

/-- A store with all tokens in its values changed. -/
def mapTokens (f : Token → Token) (s : Store) : Store :=
  { s with scopes := s.scopes.map (Scope.mapTokens f) }

variable (f : Token → Token) (s : Store)

theorem size_mapTokens : (s.mapTokens f).size = s.size := Array.size_map

theorem addScope_mapTokens (outer : Option ScopeId) :
    (s.mapTokens f).addScope outer = (s.addScope outer).mapTokens f := by
  simp only [addScope, mapTokens, Array.map_push]
  rfl

theorem bind_mapTokens (scope : ScopeId) (name : String) (v : Value) :
    (s.mapTokens f).bind scope name (v.mapTokens f) = (s.bind scope name v).mapTokens f := by
  have hscopes : (s.scopes.map (Scope.mapTokens f)).modify scope (·.set name (v.mapTokens f)) =
      (s.scopes.modify scope (·.set name v)).map (Scope.mapTokens f) := by
    refine Array.ext (by simp only [Array.size_modify, Array.size_map]) fun i h h' => ?_
    simp only [Array.getElem_modify, Array.getElem_map]
    split
    · exact Scope.set_mapTokens f _ name v
    · rfl
  simp only [bind, mapTokens, hscopes]

theorem lookup_bindings_mapTokens (bs : List (String × Value)) (name : String) :
    (bs.map (Prod.map id (Value.mapTokens f))).lookup name =
      (bs.lookup name).map (Value.mapTokens f) := by
  induction bs with
  | nil => rfl
  | cons b bs ih =>
    obtain ⟨key, v⟩ := b
    simp only [List.map_cons, Prod.map, id, List.lookup_cons]
    cases name == key with
    | true => rfl
    | false => exact ih

theorem lookup_mapTokens (scope : ScopeId) (name : String) :
    (s.mapTokens f).lookup scope name = (s.lookup scope name).map (Value.mapTokens f) := by
  induction scope using Nat.strongRecOn with
  | ind scope ih =>
    rw [lookup, lookup]
    simp only [mapTokens, Array.getElem?_map]
    cases s.scopes[scope]? with
    | none => rfl
    | some c =>
      simp only [Option.map_some, Scope.mapTokens, lookup_bindings_mapTokens]
      cases c.bindings.lookup name with
      | some v => rfl
      | none =>
        simp only [Option.map_none]
        split
        · rfl
        · split
          · next hlt => exact ih _ hlt
          · rfl

end Store

end Monkey
