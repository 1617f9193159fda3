import Mathlib.Data.List.Forall2
import Mathlib.Order.Basic
import Monkey.Proofs.Syntax.Vocabulary
import Monkey.Value.Inspect

/-!
# Values that are alike

Two runs that go side by side make objects and scopes of their own: an array in one of them has
another identity than the array that stands for it in the other one.  Two values are alike if
they differ in nothing else.  Whatever is asked of a value has the same answer for one that is
like it, and the operators give values that are alike for operands that are.

Which identities and scopes stand for each other changes as the runs go on, so that is a
parameter, the links; they only ever become more.  The other parameter is a vocabulary: integers,
names and builtins outside of which nothing is found in values that are alike.  A value is like
itself exactly if all that is inside of it is of the vocabulary and linked to itself, so what
is proved for two runs holds of one as well.

## Main definitions

* `Links` — which identities and which scopes stand for each other.
* `Value.Like` — values that differ only by what is linked.

## Main results

* `Value.Like.mono` — what is alike stays so when there are more links.
* `Value.Like.applyInfix`, `Value.Like.subscript` — the operators.
* `Value.Like.inspect?` — values that are alike have the same text.
-/

namespace Monkey

variable {V : Vocabulary}

/-! ### Links -/

/-- The identities and the scopes of one run that stand for those of another one.  Identities
are compared, so those that stand for each other are told apart in the same way. -/
structure Links where
  identity : Identity → Identity → Prop
  scope : ScopeId → ScopeId → Prop
  identity_iff : ∀ {i j i' j' : Identity}, identity i j → identity i' j' → (i = i' ↔ j = j')

/-- Links become more. -/
instance : Preorder Links where
  le R R' := (∀ i j, R.identity i j → R'.identity i j) ∧ ∀ i j, R.scope i j → R'.scope i j
  le_refl _ := ⟨fun _ _ h => h, fun _ _ h => h⟩
  le_trans _ _ _ h h' :=
    ⟨fun i j hij => h'.1 i j (h.1 i j hij), fun i j hij => h'.2 i j (h.2 i j hij)⟩

/-! ### Values -/

mutual

/-- Two values differ only in identities and scopes, these are linked, and what is inside of
them is of a vocabulary. -/
inductive Value.Like (V : Vocabulary) (R : Links) : Value → Value → Prop
  | integer {n : Int} (within : V.integer n) : Value.Like V R (.integer n) (.integer n)
  | boolean (b : Bool) : Value.Like V R (.boolean b) (.boolean b)
  | null : Value.Like V R .null .null
  | string (text : String) : Value.Like V R (.string text) (.string text)
  | array {i j : Identity} {vs ws : List Value} (linked : R.identity i j)
      (elements : List.Forall₂ (Value.Like V R) vs ws) :
      Value.Like V R (.array i vs) (.array j ws)
  | hash {i j : Identity} {ds es : List (Value × Value)} (linked : R.identity i j)
      (entries : List.Forall₂ (Value.LikeEntry V R) ds es) :
      Value.Like V R (.hash i ds) (.hash j es)
  | function {i j : Identity} {parameters : List Node} {body : Node} {a b : ScopeId}
      (linked : R.identity i j) (parametersWithin : ∀ p ∈ parameters, p.Within V)
      (bodyWithin : body.Within V) (scopes : R.scope a b) :
      Value.Like V R (.function i parameters body a) (.function j parameters body b)
  | builtin {b : Builtin} (within : V.builtin b) : Value.Like V R (.builtin b) (.builtin b)
  | returned {i j : Identity} {v w : Value} (linked : R.identity i j)
      (operand : Value.Like V R v w) : Value.Like V R (.returned i v) (.returned j w)
  | error {i j : Identity} (linked : R.identity i j) (fault : Fault) :
      Value.Like V R (.error i fault) (.error j fault)

/-- Two entries of hashes are alike. -/
inductive Value.LikeEntry (V : Vocabulary) (R : Links) : Value × Value → Value × Value → Prop
  | mk {k l v w : Value} (key : Value.Like V R k l) (value : Value.Like V R v w) :
      Value.LikeEntry V R (k, v) (l, w)

end

/-- Two attempts come to results that are related, or they fail for causes that are. -/
inductive ExceptRel {ε α β : Type} (E : ε → ε → Prop) (A : α → β → Prop) :
    Except ε α → Except ε β → Prop
  | ok {a : α} {b : β} (related : A a b) : ExceptRel E A (.ok a) (.ok b)
  | error {e e' : ε} (related : E e e') : ExceptRel E A (.error e) (.error e')

namespace Value

variable {R R' : Links} {v w v' w' : Value}

/-! ### More links -/

mutual

/-- What is alike stays so when there are more links. -/
theorem Like.mono (h : R ≤ R') : ∀ {v w : Value}, v.Like V R w → v.Like V R' w
  | _, _, .integer within => .integer within
  | _, _, .boolean b => .boolean b
  | _, _, .null => .null
  | _, _, .string text => .string text
  | _, _, .array linked elements => .array (h.1 _ _ linked) (Like.monoAll h elements)
  | _, _, .hash linked entries => .hash (h.1 _ _ linked) (Like.monoEntries h entries)
  | _, _, .function linked parameters body scopes =>
    .function (h.1 _ _ linked) parameters body (h.2 _ _ scopes)
  | _, _, .builtin within => .builtin within
  | _, _, .returned linked operand => .returned (h.1 _ _ linked) (operand.mono h)
  | _, _, .error linked fault => .error (h.1 _ _ linked) fault

theorem Like.monoAll (h : R ≤ R') : ∀ {vs ws : List Value},
    List.Forall₂ (Like V R) vs ws → List.Forall₂ (Like V R') vs ws
  | _, _, .nil => .nil
  | _, _, .cons head tail => .cons (head.mono h) (Like.monoAll h tail)

theorem Like.monoEntries (h : R ≤ R') : ∀ {ds es : List (Value × Value)},
    List.Forall₂ (LikeEntry V R) ds es → List.Forall₂ (LikeEntry V R') ds es
  | _, _, .nil => .nil
  | _, _, .cons (.mk key value) tail =>
    .cons (.mk (key.mono h) (value.mono h)) (Like.monoEntries h tail)

end

/-! ### Questions -/

theorem Like.kind (h : v.Like V R w) : w.kind = v.kind := by cases h <;> rfl

theorem Like.isSignal (h : v.Like V R w) : w.isSignal = v.isSignal := by cases h <;> rfl

theorem Like.isTruthy (h : v.Like V R w) : w.isTruthy = v.isTruthy := by cases h <;> rfl

theorem Like.key? (h : v.Like V R w) : w.key? = v.key? := by cases h <;> rfl

theorem Like.unwrapped (h : v.Like V R w) : v.unwrapped.Like V R w.unwrapped := by
  cases h with
  | integer within => exact .integer within
  | boolean b => exact .boolean b
  | null => exact .null
  | string text => exact .string text
  | array linked elements => exact .array linked elements
  | hash linked entries => exact .hash linked entries
  | function linked parameters body scopes => exact .function linked parameters body scopes
  | builtin within => exact .builtin within
  | returned linked operand => exact operand
  | error linked fault => exact .error linked fault

/-- What may be missing is alike if null takes its place. -/
theorem like_getD {o o' : Option Value} (h : Option.Rel (Like V R) o o') :
    (o.getD .null).Like V R (o'.getD .null) := by
  cases h with
  | some h => exact h
  | none => exact .null

/-! ### Operators -/

theorem Like.applyPrefix (operator : String) (h : v.Like V R w) :
    ExceptRel Eq (Like V R) (applyPrefix operator v) (applyPrefix operator w) := by
  unfold Value.applyPrefix
  split
  · rw [h.isTruthy]
    exact .ok (.boolean _)
  · cases h
    exact .ok (.integer (V.wrapped _))
  · next hbang hminus =>
    split
    · contradiction
    · cases h
      exact absurd rfl (hminus _ rfl)
    · rw [h.kind]
      exact .error rfl

theorem like_integerInfix (operator : String) (a b : Int) :
    ExceptRel Eq (Like V R) (integerInfix operator a b) (integerInfix operator a b) := by
  unfold integerInfix
  split
  case h_4 =>
    split
    · exact .error rfl
    · exact .ok (.integer (V.wrapped _))
  case h_9 => exact .error rfl
  all_goals first
    | exact .ok (.integer (V.wrapped _))
    | exact .ok (.boolean _)

theorem like_stringInfix (operator a b : String) :
    ExceptRel Eq (Like V R) (stringInfix operator a b) (stringInfix operator a b) := by
  unfold stringInfix
  split
  · exact .ok (.string _)
  · exact .error rfl

/-- Objects are compared by their identities, which are told apart in the same way. -/
theorem Like.sameObject (h : v.Like V R w) (h' : v'.Like V R w') :
    w.sameObject w' = v.sameObject v' := by
  have hid : ∀ {i j i' j' : Identity}, R.identity i j → R.identity i' j' →
      decide (j = j') = decide (i = i') :=
    fun hi hj => decide_eq_decide.mpr (R.identity_iff hi hj).symm
  cases h with
  | array linked _ | hash linked _ | function linked _ _ _ | returned linked _
  | error linked _ =>
    cases h' <;> first | rfl | exact hid linked ‹_›
  | _ => cases h' <;> rfl

theorem Like.otherInfix (operator : String) (h : v.Like V R w) (h' : v'.Like V R w') :
    ExceptRel Eq (Like V R) (otherInfix operator v v') (otherInfix operator w w') := by
  unfold Value.otherInfix
  rw [h.sameObject h', h.kind, h'.kind]
  split
  · exact .ok (.boolean _)
  · exact .ok (.boolean _)
  · split <;> exact .error rfl

theorem Like.applyInfix (operator : String) (h : v.Like V R w) (h' : v'.Like V R w') :
    ExceptRel Eq (Like V R) (applyInfix operator v v') (applyInfix operator w w') := by
  have hother := h.otherInfix operator h'
  cases h with
  | integer =>
    cases h' with
    | integer => exact like_integerInfix operator _ _
    | _ => exact hother
  | string =>
    cases h' with
    | string => exact like_stringInfix operator _ _
    | _ => exact hother
  | _ => exact hother

/-! ### Entries and elements -/

theorem LikeEntry.key {d e : Value × Value} (h : LikeEntry V R d e) : d.1.Like V R e.1 := by
  cases h with
  | mk key value => exact key

theorem LikeEntry.value {d e : Value × Value} (h : LikeEntry V R d e) : d.2.Like V R e.2 := by
  cases h with
  | mk key value => exact value

theorem Like.elements {id : Identity} {vs : List Value}
    (h : (Value.array id vs).Like V R (.array id vs)) : ∀ v ∈ vs, v.Like V R v := by
  cases h with
  | array linked elements => exact List.forall₂_same.mp elements

theorem Like.entries {id : Identity} {es : List (Value × Value)}
    (h : (Value.hash id es).Like V R (.hash id es)) : ∀ e ∈ es, LikeEntry V R e e := by
  cases h with
  | hash linked entries => exact List.forall₂_same.mp entries

theorem like_putEntry {ds es : List (Value × Value)} {k l : Value}
    (h : List.Forall₂ (LikeEntry V R) ds es) (hk : k.Like V R l) (hv : v.Like V R w) :
    List.Forall₂ (LikeEntry V R) (putEntry ds k v) (putEntry es l w) := by
  induction h with
  | nil => exact .cons (.mk hk hv) .nil
  | cons head tail ih =>
    simp only [putEntry, head.key.key?, hk.key?]
    split
    · exact .cons (.mk hk hv) tail
    · exact .cons head ih

theorem like_valueUnder? {ds es : List (Value × Value)} (key : Key)
    (h : List.Forall₂ (LikeEntry V R) ds es) :
    Option.Rel (Like V R) (valueUnder? ds key) (valueUnder? es key) := by
  induction h with
  | nil => exact .none
  | @cons d _ _ _ head tail ih =>
    simp only [valueUnder?, List.find?_cons, head.key.key?]
    cases decide (d.1.key? = some key) with
    | true => exact .some head.value
    | false => exact ih

/-- Elements at the same place are alike, and a place is there in both rows or in none. -/
theorem like_getElem? {vs ws : List Value} (h : List.Forall₂ (Like V R) vs ws) (i : Nat) :
    Option.Rel (Like V R) vs[i]? ws[i]? := by
  induction h generalizing i with
  | nil => exact .none
  | cons head tail ih =>
    cases i with
    | zero => exact .some head
    | succ i => exact ih i

theorem Like.subscript (h : v.Like V R w) (h' : v'.Like V R w') :
    ExceptRel Eq (Like V R) (v.subscript v') (w.subscript w') := by
  cases h with
  | array linked elements =>
    cases h' with
    | integer =>
      refine .ok ?_
      split
      · exact .null
      · exact like_getD (like_getElem? elements _)
    | _ => exact .error rfl
  | hash linked entries =>
    simp only [Value.subscript, h'.key?, h'.kind]
    split
    · exact .error rfl
    · exact .ok (like_getD (like_valueUnder? _ entries))
  | _ => exact .error rfl

/-! ### Texts -/

mutual

/-- Values that are alike have the same text. -/
theorem Like.inspect : ∀ {v w : Value}, v.Like V R w → w.inspect = v.inspect
  | _, _, .array _ elements => by rw [Value.inspect, Value.inspect, inspectAll_eq elements]
  | _, _, .hash _ entries => by rw [Value.inspect, Value.inspect, inspectEntries_eq entries]
  | _, _, .returned _ operand => by rw [Value.inspect, Value.inspect, operand.inspect]
  | _, _, .integer _ | _, _, .boolean _ | _, _, .null | _, _, .string _ | _, _, .builtin _
  | _, _, .function .. | _, _, .error .. => by simp only [Value.inspect]

theorem inspectAll_eq : ∀ {vs ws : List Value},
    List.Forall₂ (Like V R) vs ws → inspectAll ws = inspectAll vs
  | _, _, .nil => rfl
  | _, _, .cons head tail => by rw [inspectAll, inspectAll, head.inspect, inspectAll_eq tail]

theorem inspectEntries_eq : ∀ {ds es : List (Value × Value)},
    List.Forall₂ (LikeEntry V R) ds es → inspectEntries es = inspectEntries ds
  | _, _, .nil => rfl
  | _, _, .cons (.mk key value) tail => by
    rw [inspectEntries, inspectEntries, key.inspect, value.inspect, inspectEntries_eq tail]

end

/-- What is found first in one row is found first in the other one. -/
theorem findSome?_eq {α β γ : Type} {A : α → β → Prop} {f : α → Option γ} {g : β → Option γ}
    {as : List α} {bs : List β} (h : List.Forall₂ A as bs) (hfg : ∀ a b, A a b → g b = f a) :
    bs.findSome? g = as.findSome? f := by
  induction h with
  | nil => rfl
  | cons head tail ih => rw [List.findSome?_cons, List.findSome?_cons, hfg _ _ head, ih]

theorem Like.obstacle? (depth : Nat) (h : v.Like V R w) :
    w.obstacle? depth = v.obstacle? depth := by
  induction depth generalizing v w with
  | zero => rfl
  | succ depth ih =>
    cases h with
    | array linked elements => exact findSome?_eq elements fun _ _ => ih
    | hash linked entries =>
      refine findSome?_eq entries fun d e h => ?_
      simp only [ih h.key, ih h.value]
    | returned linked operand => exact ih operand
    | _ => rfl

/-- Values that are alike are shown alike, or the same thing stops them from being shown. -/
theorem Like.inspect? (depth : Nat) (h : v.Like V R w) :
    w.inspect? depth = v.inspect? depth := by
  rw [Value.inspect?, Value.inspect?, h.obstacle?, h.inspect]

/-! ### The same identities -/

mutual

/-- Values are equal if they are alike and only what is equal is linked. -/
theorem Like.eq (hid : ∀ i j, R.identity i j → j = i) (hscope : ∀ i j, R.scope i j → j = i) :
    ∀ {v w : Value}, v.Like V R w → w = v
  | _, _, .array linked elements => by rw [hid _ _ linked, Like.eqAll hid hscope elements]
  | _, _, .hash linked entries => by rw [hid _ _ linked, Like.eqEntries hid hscope entries]
  | _, _, .function linked _ _ scopes => by rw [hid _ _ linked, hscope _ _ scopes]
  | _, _, .returned linked operand => by rw [hid _ _ linked, operand.eq hid hscope]
  | _, _, .error linked _ => by rw [hid _ _ linked]
  | _, _, .integer _ | _, _, .boolean _ | _, _, .null | _, _, .string _ | _, _, .builtin _ => rfl

theorem Like.eqAll (hid : ∀ i j, R.identity i j → j = i) (hscope : ∀ i j, R.scope i j → j = i) :
    ∀ {vs ws : List Value}, List.Forall₂ (Like V R) vs ws → ws = vs
  | _, _, .nil => rfl
  | _, _, .cons head tail => by rw [head.eq hid hscope, Like.eqAll hid hscope tail]

theorem Like.eqEntries (hid : ∀ i j, R.identity i j → j = i)
    (hscope : ∀ i j, R.scope i j → j = i) :
    ∀ {ds es : List (Value × Value)}, List.Forall₂ (LikeEntry V R) ds es → es = ds
  | _, _, .nil => rfl
  | _, _, .cons (.mk key value) tail => by
    rw [key.eq hid hscope, value.eq hid hscope, Like.eqEntries hid hscope tail]

end

end Value

end Monkey
