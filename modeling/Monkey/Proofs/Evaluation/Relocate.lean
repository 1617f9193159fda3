import Monkey.Evaluation.Eval
import Monkey.Proofs.Value.Relocate

/-!
# Evaluation does not depend on places

A tree whose tokens are moved is evaluated, in a store whose tokens are moved, as the tree in the
store: it stops where that stops, it gives the same result, and it leaves the same store, all with
their tokens moved.

## Main definitions

* `Evaluation.Moves` — one evaluation does in a moved store what another one does.

## Main results

* `Evaluation.Moves.bind` — two parts in a row.
* `Evaluation.moves_eval` — the evaluation of trees.
-/

namespace Monkey

namespace Evaluation

variable {α β γ δ : Type} {f : Relocation}

/-- What comes of an evaluation, with the store moved by `f` and the result by `g`. -/
def moved (f : Token → Token) (g : α → β) :
    EStateM.Result Stop Store α → EStateM.Result Stop Store β
  | .ok a s => .ok (g a) (s.mapTokens f)
  | .error why s => .error why (s.mapTokens f)

/-- In a moved store `e'` does what `e` does, moved. -/
def Moves (f : Relocation) (g : α → β) (e : Evaluation α) (e' : Evaluation β) : Prop :=
  ∀ s : Store, e' (s.mapTokens f.move) = moved f.move g (e s)

/-- How a value is moved. -/
abbrev moveValue (f : Relocation) : Value → Value := Value.mapTokens f.move

/-- How some values are moved, or the signal in their place. -/
def moveParts (f : Relocation) (g : α → β) : Except Value α → Except Value β
  | .ok a => .ok (g a)
  | .error signal => .error (moveValue f signal)

/-! ### Combinators -/

theorem Moves.pure {g : α → β} {a : α} {b : β} (h : b = g a) :
    Moves f g (Pure.pure a) (Pure.pure b) := by
  intro s
  rw [h]
  rfl

theorem Moves.throw {g : α → β} (why : Stop) : Moves f g (throw why) (throw why) :=
  fun _ => rfl

theorem Moves.bind {g : α → β} {h : γ → δ} {e : Evaluation α} {e' : Evaluation β}
    {k : α → Evaluation γ} {k' : β → Evaluation δ} (he : Moves f g e e')
    (hk : ∀ a, Moves f h (k a) (k' (g a))) : Moves f h (e >>= k) (e' >>= k') := by
  intro s
  have he := he s
  simp only [Bind.bind, EStateM.bind, he]
  cases e s with
  | ok a t => exact hk a t
  | error why t => rfl

theorem Moves.map {g : α → β} {h : γ → δ} {e : Evaluation α} {e' : Evaluation β}
    {k : α → γ} {k' : β → δ} (he : Moves f g e e') (hk : ∀ a, k' (g a) = h (k a)) :
    Moves f h (k <$> e) (k' <$> e') := by
  intro s
  have he := he s
  simp only [Functor.map, EStateM.map, he]
  cases e s with
  | ok a t =>
    simp only [moved, hk]
  | error why t => rfl

theorem Moves.ite {g : α → β} {c : Prop} [Decidable c] {e₁ e₂ : Evaluation α}
    {e₁' e₂' : Evaluation β} (h₁ : Moves f g e₁ e₁') (h₂ : Moves f g e₂ e₂') :
    Moves f g (if c then e₁ else e₂) (if c then e₁' else e₂') := by
  split
  · exact h₁
  · exact h₂

theorem Moves.modify {m m' : Store → Store}
    (h : ∀ s : Store, m' (s.mapTokens f.move) = (m s).mapTokens f.move) :
    Moves f id (modify m) (modify m') :=
  fun s => congrArg (EStateM.Result.ok ()) (h s)

/-! ### Objects, errors and lines -/

theorem moves_issue : Moves f id issue issue := fun _ => rfl

theorem moves_raise (fault : Fault) : Moves f (moveValue f) (raise fault) (raise fault) :=
  moves_issue.bind fun _ => .pure rfl

theorem moves_settle (r : Except Fault Value) :
    Moves f (moveValue f) (settle r) (settle (r.map (moveValue f))) := by
  cases r with
  | ok v => exact .pure rfl
  | error fault => exact moves_raise fault

theorem moves_printLine (depth : Nat) (v : Value) :
    Moves f id (printLine depth v) (printLine depth (moveValue f v)) := by
  unfold printLine
  rw [Value.inspect?_mapTokens]
  split
  · exact .modify fun s => rfl
  · exact .throw _

/-! ### Names -/

theorem moves_bindName (scope : ScopeId) (name : Node) (v : Value) :
    Moves f id (bindName scope name v)
      (bindName scope (name.mapTokens f.move) (moveValue f v)) := by
  unfold bindName
  rw [Node.content?_mapTokens, Node.kind_mapTokens]
  split
  · exact .modify fun s => s.bind_mapTokens f.move scope _ v
  · exact .pure rfl
  · exact .throw _

/-- How a name and the value that it is bound to are moved. -/
abbrev moveBinding (f : Relocation) : Node × Value → Node × Value :=
  Prod.map (Node.mapTokens f.move) (moveValue f)

theorem moves_bindNames (scope : ScopeId) (bs : List (Node × Value)) :
    Moves f id (bindNames scope bs) (bindNames scope (bs.map (moveBinding f))) := by
  induction bs with
  | nil => exact .pure rfl
  | cons b bs ih => exact (moves_bindName scope b.1 b.2).bind fun _ => ih

theorem moves_enter (closure : ScopeId) (parameters : List Node) (arguments : List Value) :
    Moves f id (enter closure parameters arguments)
      (enter closure (parameters.map (Node.mapTokens f.move)) (arguments.map (moveValue f))) := by
  have hnew : Moves f id
      (modifyGet fun s : Store => (s.size, s.addScope (some closure)) : Evaluation ScopeId)
      (modifyGet fun s : Store => (s.size, s.addScope (some closure))) := by
    intro s
    -- the new scope has the number that the moved store counts up to
    have hok : (EStateM.Result.ok (s.mapTokens f.move).size
          ((s.mapTokens f.move).addScope (some closure)) : EStateM.Result Stop Store ScopeId) =
        .ok s.size ((s.addScope (some closure)).mapTokens f.move) := by
      rw [s.size_mapTokens, s.addScope_mapTokens]
    exact hok
  refine hnew.bind fun scope => ?_
  rw [List.zip_map]
  exact (moves_bindNames scope _).bind fun _ => .pure rfl

/-! ### Builtins -/

theorem moves_onOne {k k' : Value → Evaluation Value}
    (hk : ∀ v, Moves f (moveValue f) (k v) (k' (moveValue f v))) (vs : List Value) :
    Moves f (moveValue f) (Builtin.onOne k vs) (Builtin.onOne k' (vs.map (moveValue f))) := by
  match vs with
  | [v] => exact hk v
  | [] => exact moves_raise _
  | _ :: _ :: vs =>
    simp only [Builtin.onOne, List.map_cons, List.length_cons, List.length_map]
    exact moves_raise _

theorem moves_onArray (b : Builtin) {k k' : List Value → Evaluation Value}
    (hk : ∀ vs, Moves f (moveValue f) (k vs) (k' (vs.map (moveValue f)))) (v : Value) :
    Moves f (moveValue f) (Builtin.onArray b k v) (Builtin.onArray b k' (moveValue f v)) := by
  cases v with
  | array id elements =>
    simp only [moveValue, Value.mapTokens, Value.mapTokensAll_eq_map, Builtin.onArray]
    exact hk elements
  | _ => exact moves_raise _

theorem moves_length (v : Value) :
    Moves f (moveValue f) (Builtin.length v) (Builtin.length (moveValue f v)) := by
  cases v with
  | array id elements =>
    simp only [moveValue, Value.mapTokens, Value.mapTokensAll_eq_map, Builtin.length,
      List.length_map]
    exact .pure rfl
  | string s => exact .pure rfl
  | _ => exact moves_raise _

/-- An array that is made is one of moved elements. -/
theorem moves_array (vs : List Value) :
    Moves f (moveValue f) (do return .array (← issue) vs)
      (do return .array (← issue) (vs.map (moveValue f))) := by
  refine moves_issue.bind fun i => .pure ?_
  rw [moveValue, Value.mapTokens, Value.mapTokensAll_eq_map]
  rfl

theorem moves_restOf (vs : List Value) :
    Moves f (moveValue f) (Builtin.restOf vs) (Builtin.restOf (vs.map (moveValue f))) := by
  cases vs with
  | nil => exact .pure rfl
  | cons v vs => exact moves_array vs

theorem moves_pushOnto (vs : List Value) :
    Moves f (moveValue f) (Builtin.pushOnto vs) (Builtin.pushOnto (vs.map (moveValue f))) := by
  match vs with
  | [] => exact moves_raise _
  | [v] => cases v <;> exact moves_raise _
  | [v, w] =>
    cases v with
    | array id elements =>
      have h := moves_array (f := f) (elements ++ [w])
      rw [List.map_append] at h
      simp only [List.map_cons, List.map_nil, moveValue, Value.mapTokens,
        Value.mapTokensAll_eq_map, Builtin.pushOnto]
      exact h
    | _ => exact moves_raise _
  | v :: _ :: _ :: vs =>
    have hlen : (vs.map (moveValue f)).length = vs.length := List.length_map _
    cases v <;>
    · simp only [moveValue, Value.mapTokens, List.map_cons, Builtin.pushOnto, List.length_cons,
        hlen]
      exact moves_raise _

theorem moves_printAll (depth : Nat) (vs : List Value) :
    Moves f (moveValue f) (Builtin.printAll depth vs)
      (Builtin.printAll depth (vs.map (moveValue f))) := by
  induction vs with
  | nil => exact .pure rfl
  | cons v vs ih => exact (moves_printLine depth v).bind fun _ => ih

theorem moves_builtin (depth : Nat) (b : Builtin) (vs : List Value) :
    Moves f (moveValue f) (b.apply depth vs) (b.apply depth (vs.map (moveValue f))) := by
  cases b with
  | first =>
    refine moves_onOne (moves_onArray _ fun elements => .pure ?_) vs
    rw [List.head?_map, Value.getD_null_mapTokens]
  | last =>
    refine moves_onOne (moves_onArray _ fun elements => .pure ?_) vs
    rw [List.getLast?_map, Value.getD_null_mapTokens]
  | len => exact moves_onOne moves_length vs
  | push => exact moves_pushOnto vs
  | puts => exact moves_printAll depth vs
  | rest => exact moves_onOne (moves_onArray _ moves_restOf) vs

/-! ### Constructs -/

/-- How a result that may be missing is moved. -/
abbrev moveResult (f : Relocation) : Option Value → Option Value := Option.map (moveValue f)

/-- The constructs are over evaluations of parts that are moved already. -/
def MovesAll (f : Relocation) (E : Evaluator) : Prop :=
  ∀ n scope, Moves f (moveResult f) (E n scope) (E (n.mapTokens f.move) scope)

section

variable {E : Evaluator} (hE : MovesAll f E)

include hE

theorem moves_value (n : Node) (scope : ScopeId) :
    Moves f (moveValue f) (value E n scope) (value E (n.mapTokens f.move) scope) :=
  (hE n scope).bind fun o => .pure (Value.getD_null_mapTokens f.move o)

theorem moves_operand (n : Node) (scope : ScopeId) {k k' : Value → Evaluation (Option Value)}
    (hk : ∀ v, Moves f (moveResult f) (k v) (k' (moveValue f v))) :
    Moves f (moveResult f) (operand E n scope k) (operand E (n.mapTokens f.move) scope k') := by
  refine (moves_value hE n scope).bind fun v => ?_
  rw [Value.isSignal_mapTokens]
  exact .ite (.pure rfl) (hk v)

theorem moves_values (scope : ScopeId) (ns : List Node) :
    Moves f (moveParts f (List.map (moveValue f))) (values E scope ns)
      (values E scope (ns.map (Node.mapTokens f.move))) := by
  induction ns with
  | nil => exact .pure rfl
  | cons n ns ih =>
    refine (moves_value hE n scope).bind fun v => ?_
    rw [Value.isSignal_mapTokens]
    refine .ite (.pure rfl) (ih.bind fun r => ?_)
    cases r <;> exact .pure rfl

/-- How the entries of a hash are moved. -/
abbrev moveEntries (f : Relocation) : List (Value × Value) → List (Value × Value) :=
  List.map (Prod.map (moveValue f) (moveValue f))

theorem moves_entries (scope : ScopeId) (ps : List (Node × Node)) (done : List (Value × Value)) :
    Moves f (moveParts f (moveEntries f)) (entries E scope ps done)
      (entries E scope (ps.map (Prod.map (Node.mapTokens f.move) (Node.mapTokens f.move)))
        (moveEntries f done)) := by
  induction ps generalizing done with
  | nil => exact .pure rfl
  | cons p ps ih =>
    refine (moves_value hE p.1 scope).bind fun k => ?_
    rw [Value.isSignal_mapTokens, Value.key?_mapTokens, Value.kind_mapTokens]
    refine .ite (.pure rfl) (.ite ((moves_raise _).bind fun _ => .pure rfl) ?_)
    refine (moves_value hE p.2 scope).bind fun v => ?_
    rw [Value.isSignal_mapTokens]
    refine .ite (.pure rfl) ?_
    rw [moveEntries, Value.putEntry_mapTokens]
    exact ih _

theorem moves_apply (depth : Nat) (callee : Value) (vs : List Value) :
    Moves f (moveValue f) (apply E depth callee vs)
      (apply E depth (moveValue f callee) (vs.map (moveValue f))) := by
  cases callee with
  | function id parameters body closure =>
    simp only [moveValue, Value.mapTokens, Node.mapTokensAll_eq_map, apply]
    refine (moves_enter closure parameters vs).bind fun scope => ?_
    exact (moves_value hE body scope).bind fun v => .pure (Value.unwrapped_mapTokens f.move v)
  | builtin b => exact moves_builtin depth b vs
  | _ => exact moves_raise _

theorem moves_runProgram (scope : ScopeId) (ns : List Node) (last : Option Value) :
    Moves f (moveResult f) (runProgram E scope ns last)
      (runProgram E scope (ns.map (Node.mapTokens f.move)) (moveResult f last)) := by
  induction ns generalizing last with
  | nil => exact .pure rfl
  | cons n ns ih =>
    refine (hE n scope).bind fun o => ?_
    cases o with
    | none => exact ih none
    | some v =>
      cases v with
      | returned id v => exact .pure rfl
      | error id fault => exact .pure rfl
      | _ => exact ih (some _)

theorem moves_runBlock (scope : ScopeId) (ns : List Node) (last : Option Value) :
    Moves f (moveResult f) (runBlock E scope ns last)
      (runBlock E scope (ns.map (Node.mapTokens f.move)) (moveResult f last)) := by
  induction ns generalizing last with
  | nil => exact .pure rfl
  | cons n ns ih =>
    refine (hE n scope).bind fun o => ?_
    have hany : (moveResult f o).any Value.isSignal = o.any Value.isSignal := by
      cases o with
      | none => rfl
      | some v => exact Value.isSignal_mapTokens f.move v
    rw [hany]
    exact .ite (.pure rfl) (ih o)

end

theorem moves_identifier (name : String) (scope : ScopeId) :
    Moves f (moveValue f) (identifier name scope) (identifier name scope) := by
  have hget : Moves f (Store.mapTokens f.move) (get : Evaluation Store) get := fun _ => rfl
  refine hget.bind fun s => ?_
  rw [Store.lookup_mapTokens]
  cases s.lookup scope name with
  | some v => exact .pure rfl
  | none =>
    simp only [Option.map_none]
    split
    · exact .pure rfl
    · exact moves_raise _

/-! ### Trees -/

variable {E : Evaluator}

theorem moves_evalNode (hE : MovesAll f E) (depth : Nat) (n : Node) (scope : ScopeId) :
    Moves f (moveResult f) (evalNode E depth n scope)
      (evalNode E depth (n.mapTokens f.move) scope) := by
  cases n with
  | missing => exact .pure rfl
  | bare token => exact .throw _
  | program statements =>
    rw [Node.mapTokens, Node.mapTokensAll_eq_map]
    exact moves_runProgram hE scope statements none
  | block token statements =>
    rw [Node.mapTokens, Node.mapTokensAll_eq_map]
    exact moves_runBlock hE scope statements none
  | expressionStatement token expression => exact hE expression scope
  | letStatement token name val =>
    refine moves_operand hE val scope fun v => ?_
    rw [Node.isPresent_mapTokens]
    split
    · exact (moves_bindName scope name v).bind fun _ => .pure rfl
    · exact .pure rfl
  | returnStatement token val =>
    exact moves_operand hE val scope fun v => moves_issue.bind fun id => .pure rfl
  | identifier token name => exact (moves_identifier name scope).map fun _ => rfl
  | integer token n => exact .pure rfl
  | boolean token b => exact .pure rfl
  | string token s => exact .pure rfl
  | prefixed token operator right =>
    refine moves_operand hE right scope fun r => ?_
    rw [Value.applyPrefix_mapTokens]
    exact (moves_settle _).map fun _ => rfl
  | infixed token left operator right =>
    refine moves_operand hE left scope fun l => moves_operand hE right scope fun r => ?_
    rw [Value.applyInfix_mapTokens]
    exact (moves_settle _).map fun _ => rfl
  | conditional token condition consequence alternative =>
    refine moves_operand hE condition scope fun c => ?_
    rw [Value.isTruthy_mapTokens, Node.isMissing_mapTokens]
    exact .ite (hE consequence scope) (.ite (.pure rfl) (hE alternative scope))
  | function token parameters body =>
    refine moves_issue.bind fun id => .pure ?_
    simp only [Node.isMissing_mapTokens]
    split <;> rfl
  | call token callee arguments =>
    refine moves_operand hE callee scope fun v => ?_
    rw [Node.mapTokensAll_eq_map]
    refine (moves_values hE scope arguments).bind fun r => ?_
    cases r with
    | error signal => exact .pure rfl
    | ok vs => exact (moves_apply hE depth v vs).map fun _ => rfl
  | array token elements =>
    rw [Node.mapTokens, Node.mapTokensAll_eq_map]
    refine (moves_values hE scope elements).bind fun r => ?_
    cases r with
    | error signal => exact .pure rfl
    | ok vs =>
      exact (moves_array vs).map fun _ => rfl
  | hash token pairs =>
    rw [Node.mapTokens, Node.mapTokensPairs_eq_map]
    refine (moves_entries hE scope pairs []).bind fun r => ?_
    cases r with
    | error signal => exact .pure rfl
    | ok es =>
      refine moves_issue.bind fun i => .pure ?_
      simp only [moveResult, moveValue, Option.map_some, Value.mapTokens,
        Value.mapTokensEntries_eq_map, id]
  | index token left subscript =>
    refine moves_operand hE left scope fun l => moves_operand hE subscript scope fun i => ?_
    rw [Value.subscript_mapTokens]
    exact (moves_settle _).map fun _ => rfl

/-- **Evaluation does not depend on places.**  A moved tree in a moved store comes to what the tree
comes to, moved. -/
theorem moves_eval (f : Relocation) (depth : Nat) : MovesAll f (eval depth) := by
  induction depth with
  | zero => exact fun _ _ => .throw _
  | succ depth ih => exact fun n scope => moves_evalNode ih depth n scope

end Evaluation

end Monkey
