import Monkey.Proofs.Evaluation.Follows
import Monkey.Proofs.Evaluation.Position

/-!
# Signals are exceptions

Evaluation hands errors and the results of `return` on as values, and each construct asks
of each part whether it gave such a signal.  Where no signal can be reached to begin with,
this is evaluation with exceptions: the result, the printed text and all the scopes are
the same.  So nothing behind a signal is evaluated, bound or printed.

A construct follows if its parts do; the constructs are taken one by one, and the depth is
used once, in `follows_eval`.

## Main results

* `follows_eval` — evaluation follows the one that throws, from every plain store.
* `eval_eq_observe` — evaluation is that of the throwing evaluator, as seen from outside,
  from every scope from which no signal can be reached.
* `signals_are_exceptions` — the same together with what it means: **nothing behind a signal
  is evaluated**.
-/

namespace Monkey

variable {L : ScopeId → Prop}

/-! ### Builtins -/

section Builtins

theorem follows_onOne {f : Value → Evaluation Value} {f' : Value → Throwing Value}
    (hf : ∀ v, v.Plain L → Follows L (.sure L) (f v) (f' v)) :
    ∀ {vs : List Value}, (∀ v ∈ vs, v.Plain L) →
      Follows L (.sure L) (Builtin.onOne f vs) (Throwing.onOne f' vs)
  | [], _ => .raise _
  | [v], h => hf v (h v List.mem_cons_self)
  | _ :: _ :: _, _ => .raise _

theorem follows_onArray (b : Builtin) {f : List Value → Evaluation Value}
    {f' : List Value → Throwing Value}
    (hf : ∀ vs, (∀ v ∈ vs, v.Plain L) → Follows L (.sure L) (f vs) (f' vs)) {v : Value}
    (hv : v.Plain L) :
    Follows L (.sure L) (Builtin.onArray b f v) (Throwing.onArray b f' v) := by
  cases hv with
  | array id plain => exact hf _ plain
  | _ => exact .raise _

theorem follows_length {v : Value} (hv : v.Plain L) :
    Follows L (.sure L) (Builtin.length v) (Throwing.length v) := by
  cases hv with
  | string text => exact .pure (c := .sure L) (.integer _)
  | array id plain => exact .pure (c := .sure L) (.integer _)
  | _ => exact .raise _

theorem follows_pushOnto :
    ∀ {vs : List Value}, (∀ v ∈ vs, v.Plain L) →
      Follows L (.sure L) (Builtin.pushOnto vs) (Throwing.pushOnto vs)
  | [], _ => .raise _
  | [v], _ => by cases v <;> exact .raise _
  | [a, v], h => by
    have hv : v.Plain L := h v (by simp)
    cases h a List.mem_cons_self with
    | array id plain =>
      refine .lift_bind Evaluation.keeps_issue fun new _ => ?_
      refine .pure (c := .sure L) (.array new fun w hw => ?_)
      rcases List.mem_append.mp hw with hw | hw
      · exact plain w hw
      · exact List.mem_singleton.mp hw ▸ hv
    | _ => exact .raise _
  | v :: _ :: _ :: _, _ => by cases v <;> exact .raise _

theorem follows_applyBuiltin (depth : Nat) (b : Builtin) {vs : List Value}
    (h : ∀ v ∈ vs, v.Plain L) :
    Follows L (.sure L) (b.apply depth vs) (Throwing.applyBuiltin depth b vs) := by
  cases b with
  | first =>
    refine follows_onOne (fun v hv => follows_onArray _ (fun elements he => ?_) hv) h
    exact .pure (c := .sure L)
      (Value.plain_getD fun w hw => he w (List.mem_of_mem_head? hw))
  | last =>
    refine follows_onOne (fun v hv => follows_onArray _ (fun elements he => ?_) hv) h
    exact .pure (c := .sure L)
      (Value.plain_getD fun w hw => he w (List.mem_of_mem_getLast? hw))
  | len => exact follows_onOne (fun v hv => follows_length hv) h
  | push => exact follows_pushOnto h
  | puts => exact .lift (Evaluation.keeps_printAll depth vs)
  | rest =>
    refine follows_onOne (fun v hv => follows_onArray _ (fun elements he => ?_) hv) h
    exact .lift (Evaluation.keeps_restOf he)

end Builtins

/-! ### Constructs -/

section Constructs

variable {eval : Evaluation.Evaluator} {eval' : Throwing.Evaluator} {scope : ScopeId}

theorem follows_value {n : Node} (h : Follows L (.maybe L) (eval n scope) (eval' n scope)) :
    Follows L (.sure L) (Evaluation.value eval n scope) (Throwing.value eval' n scope) :=
  h.bind (fun _ ho => .pure (c := .sure L) (Value.plain_getD ho)) fun _ _ => rfl

/-- A part that is asked whether it gave a signal: what stands behind it goes on with a
plain value. -/
theorem follows_part {γ δ : Type} {d : Channel γ δ} {n : Node} {stop k : Value → Evaluation δ}
    {k' : Value → Throwing γ} (h : Follows L (.maybe L) (eval n scope) (eval' n scope))
    (hk : ∀ v, v.Plain L → Follows L d (k v) (k' v))
    (hstop : ∀ v, stop v = pure (d.signal v)) :
    Follows L d
      (Evaluation.value eval n scope >>= fun v => if v.isSignal then stop v else k v)
      (Throwing.value eval' n scope >>= k') := by
  refine (follows_value h).bind (fun v hv => ?_) fun v hv => ?_
  · change Follows L d (if v.isSignal = true then stop v else k v) (k' v)
    rw [if_neg (by simp [hv.isSignal])]
    exact hk v hv
  · change (if v.isSignal = true then stop v else k v) = _
    rw [if_pos hv]
    exact hstop v

theorem follows_operand {n : Node} {k : Value → Evaluation (Option Value)}
    {k' : Value → Throwing (Option Value)}
    (h : Follows L (.maybe L) (eval n scope) (eval' n scope))
    (hk : ∀ v, v.Plain L → Follows L (.maybe L) (k v) (k' v)) :
    Follows L (.maybe L) (Evaluation.operand eval n scope k)
      (Throwing.value eval' n scope >>= k') :=
  follows_part h hk fun _ => rfl

/-- The evaluations of all trees in the scopes of the invariant follow. -/
def FollowsAll (L : ScopeId → Prop) (eval : Evaluation.Evaluator)
    (eval' : Throwing.Evaluator) : Prop :=
  ∀ (n : Node) (scope : ScopeId), L scope →
    Follows L (.maybe L) (eval n scope) (eval' n scope)

theorem follows_values (h : FollowsAll L eval eval') (hscope : L scope) (ns : List Node) :
    Follows L (.parts fun vs => ∀ v ∈ vs, v.Plain L) (Evaluation.values eval scope ns)
      (Throwing.values eval' scope ns) := by
  induction ns with
  | nil => exact .pure (c := .parts _) (List.forall_mem_nil _)
  | cons n ns ih =>
    refine follows_part (h n scope hscope) (fun v hv => ?_) fun _ => rfl
    refine ih.bind (fun vs hvs => ?_) fun _ _ => rfl
    exact .pure (c := .parts _) (List.forall_mem_cons.mpr ⟨hv, hvs⟩)

/-- A key that cannot be used is an error before its value is evaluated. -/
theorem follows_entries (h : FollowsAll L eval eval') (hscope : L scope)
    (pairs : List (Node × Node)) :
    ∀ {done : List (Value × Value)}, (∀ e ∈ done, e.1.Plain L ∧ e.2.Plain L) →
      Follows L (.parts fun es => ∀ e ∈ es, e.1.Plain L ∧ e.2.Plain L)
        (Evaluation.entries eval scope pairs done)
        (Throwing.entries eval' scope pairs done) := by
  induction pairs with
  | nil => exact fun hdone => .pure (c := .parts _) hdone
  | cons pair pairs ih =>
    intro done hdone
    refine follows_part (h pair.1 scope hscope) (fun k hk => ?_) fun _ => rfl
    by_cases hkey : k.key?.isNone = true
    · rw [if_pos hkey, if_pos hkey]
      exact .raise_bind _ fun _ => rfl
    · rw [if_neg hkey, if_neg hkey]
      refine follows_part (h pair.2 scope hscope) (fun v hv => ?_) fun _ => rfl
      refine ih fun e he => ?_
      rcases Value.mem_putEntry he with he | rfl
      · exact hdone e he
      · exact ⟨hk, hv⟩

/-- A function takes a `return` out of its wrapper, where the other one catches it. -/
theorem follows_apply (h : FollowsAll L eval eval') (depth : Nat) {callee : Value}
    (hcallee : callee.Plain L) {arguments : List Value} (hargs : ∀ v ∈ arguments, v.Plain L) :
    Follows L (.sure L) (Evaluation.apply eval depth callee arguments)
      (Throwing.apply eval' depth callee arguments) := by
  cases hcallee with
  | function id parameters body known =>
    refine .lift_bind (Evaluation.keeps_enter known parameters hargs) fun scope hscope => ?_
    refine .catchReturn ?_ fun v hv => ⟨hv.unwrapped ▸ rfl, hv⟩
    rw [← bind_pure (Throwing.value eval' body scope)]
    refine (follows_value (h body scope hscope)).bind (fun v hv => ?_) fun _ _ => rfl
    exact hv.unwrapped.symm ▸ .pure (c := (Channel.sure L).unwrapping) hv
  | builtin b => exact follows_applyBuiltin depth b hargs
  | _ => exact .raise _

theorem follows_runBlock (h : FollowsAll L eval eval') (hscope : L scope) (ns : List Node) :
    ∀ {last : Option Value}, (∀ v ∈ last, v.Plain L) →
      Follows L (.maybe L) (Evaluation.runBlock eval scope ns last)
        (Throwing.runStatements eval' scope ns last) := by
  induction ns with
  | nil => exact fun hlast => .pure (c := .maybe L) hlast
  | cons n ns ih =>
    intro last _
    refine (h n scope hscope).bind (fun o ho => ?_) fun v hv => if_pos hv
    have hgo : ¬ o.any Value.isSignal = true := by
      cases o with
      | none => simp
      | some v => simp [(ho v rfl).isSignal]
    exact (if_neg hgo).symm ▸ ih ho

/-- The statements of a program follow up to the place where a `return` ends. -/
theorem follows_runProgram (h : FollowsAll L eval eval') (hscope : L scope) (ns : List Node) :
    ∀ {last : Option Value}, (∀ v ∈ last, v.Plain L) →
      Follows L (Channel.maybe L).unwrapping (Evaluation.runProgram eval scope ns last)
        (Throwing.runStatements eval' scope ns last) := by
  induction ns with
  | nil => exact fun hlast => .pure (c := (Channel.maybe L).unwrapping) hlast
  | cons n ns ih =>
    intro last _
    refine (h n scope hscope).bind (fun o ho => ?_) fun v hv => ?_
    · cases o with
      | none => exact ih ho
      | some v => cases ho v rfl <;> exact ih ho
    · cases v <;> first | rfl | cases hv

theorem follows_identifier (hscope : L scope) (name : String) :
    Follows L (.sure L) (Evaluation.identifier name scope)
      (Throwing.identifier name scope) := by
  refine .get_bind fun s hs => ?_
  cases hl : s.lookup scope name with
  | some v => exact .pure (c := .sure L) (hs.lookup hscope hl)
  | none =>
    simp only
    cases Builtin.ofName? name with
    | some b => exact .pure (c := .sure L) (.builtin b)
    | none => exact .raise _

/-- **One construct**: it follows if its parts do. -/
theorem follows_evalNode (h : FollowsAll L eval eval') (depth : Nat) :
    FollowsAll L (Evaluation.evalNode eval depth) (Throwing.evalNode eval' depth) := by
  intro n scope hscope
  have hsome : ∀ {v : Value}, v.Plain L →
      Follows L (.maybe L) (pure (some v)) (pure (some v)) := fun hv =>
    .pure (c := .maybe L) fun w hw => Option.some.inj hw ▸ hv
  have hnone : Follows L (.maybe L) (pure none) (pure none) :=
    .pure (c := .maybe L) fun _ hv => nomatch hv
  cases n with
  | missing => exact hnone
  | bare => exact .stop _
  | program statements =>
    refine .catchReturn (follows_runProgram h hscope statements (by simp)) fun v hv => ?_
    exact ⟨rfl, fun w hw => Option.some.inj hw ▸ hv⟩
  | block _ statements => exact follows_runBlock h hscope statements (by simp)
  | expressionStatement _ expression => exact h expression scope hscope
  | letStatement _ name val =>
    refine follows_operand (h val scope hscope) fun v hv => ?_
    by_cases hname : name.isPresent = true
    · simp only [if_pos hname]
      exact .lift_bind (Evaluation.keeps_bindName scope name hv) fun _ _ => hnone
    · simp only [if_neg hname]
      exact hnone
  | returnStatement _ val =>
    refine follows_operand (h val scope hscope) fun v hv => ?_
    exact .lift_bind Evaluation.keeps_issue fun _ _ _ hs => ⟨rfl, hs, hv⟩
  | identifier _ name => exact (follows_identifier hscope name).map_some
  | integer _ n => exact hsome (.integer n)
  | boolean _ b => exact hsome (.boolean b)
  | string _ text => exact hsome (.string text)
  | prefixed _ operator right =>
    refine follows_operand (h right scope hscope) fun r _ => ?_
    exact (Follows.settle fun _ => Value.plain_of_applyPrefix).map_some
  | infixed _ left operator right =>
    refine follows_operand (h left scope hscope) fun l _ => ?_
    refine follows_operand (h right scope hscope) fun r _ => ?_
    exact (Follows.settle fun _ => Value.plain_of_applyInfix).map_some
  | conditional _ condition consequence alternative =>
    refine follows_operand (h condition scope hscope) fun c _ => ?_
    by_cases hc : c.isTruthy = true
    · rw [if_pos hc, if_pos hc]
      exact h consequence scope hscope
    · rw [if_neg hc, if_neg hc]
      by_cases ha : alternative.isMissing = true
      · rw [if_pos ha, if_pos ha]
        exact hsome .null
      · rw [if_neg ha, if_neg ha]
        exact h alternative scope hscope
  | function token parameters body =>
    exact .lift_bind Evaluation.keeps_issue fun id _ => hsome (.function id _ _ hscope)
  | call _ callee arguments =>
    refine follows_operand (h callee scope hscope) fun f hf => ?_
    refine (follows_values h hscope arguments).bind (fun vs hvs => ?_) fun _ _ => rfl
    exact (follows_apply h depth hf hvs).map_some
  | array _ elements =>
    refine (follows_values h hscope elements).bind (fun vs hvs => ?_) fun _ _ => rfl
    exact .lift_bind Evaluation.keeps_issue fun id _ => hsome (.array id hvs)
  | hash _ pairs =>
    refine (follows_entries h hscope pairs (by simp)).bind (fun es hes => ?_) fun _ _ => rfl
    refine .lift_bind Evaluation.keeps_issue fun id _ => hsome (.hash id ?_ ?_)
    · exact fun e he => (hes e he).1
    · exact fun e he => (hes e he).2
  | index _ left subscript =>
    refine follows_operand (h left scope hscope) fun l hl => ?_
    refine follows_operand (h subscript scope hscope) fun i _ => ?_
    exact (Follows.settle fun _ => Value.plain_of_subscript hl).map_some

end Constructs

/-! ### Trees -/

theorem follows_eval (depth : Nat) :
    FollowsAll L (Evaluation.eval depth) (Throwing.eval depth) := by
  induction depth with
  | zero => exact fun _ _ _ => .stop _
  | succ depth ih => exact follows_evalNode ih depth

/-- From a scope from which no signal can be reached, a tree gives the same result, printed
text and scopes as it does where errors and the results of `return` are thrown. -/
theorem eval_eq_observe (depth : Nat) (n : Node) {scope : ScopeId} {s : Store}
    (h : s.SignalFree scope) :
    Evaluation.eval depth n scope s = Throwing.observe (Throwing.eval depth n scope s) := by
  obtain ⟨L, hscope, hs⟩ := Store.signalFree_iff.mp h
  have hagree := follows_eval depth n scope hscope s hs
  cases ht : Throwing.eval depth n scope s with
  | ok o s' =>
    rw [ht] at hagree
    exact hagree.1
  | error interruption s' =>
    rw [ht] at hagree
    cases interruption with
    | stopped why => exact hagree.1
    | failed id fault => exact hagree.1
    | returned id v => exact hagree.1

/-- **Signals are exceptions.**  Where no signal can be reached to begin with, evaluation is
evaluation with exceptions.  And wherever a signal arises, it is the result of every
construct around it, or ends the program, and the store stays as it was at that moment:
nothing behind it is evaluated, bound or printed. -/
theorem signals_are_exceptions :
    (∀ (depth : Nat) (n : Node) (scope : ScopeId) (s : Store), s.SignalFree scope →
      Evaluation.eval depth n scope s =
        Throwing.observe (Throwing.eval depth n scope s)) ∧
    (∀ (scope : ScopeId) (depth depth' : Nat) (n p : Node) (s s' s'' : Store) (w : Value),
      Evaluation.ComesTo scope depth n s depth' p s' →
      Evaluation.eval depth' p scope s' = .ok (some w) s'' → w.isSignal = true →
      Evaluation.eval depth n scope s = .ok (some w) s'') ∧
    ∀ (scope : ScopeId) (depth : Nat) (before after : List Node) (p : Node)
      (s s' s'' : Store) (o : Option Value) (w : Value),
      Evaluation.runBlock (Evaluation.eval depth) scope before none s = .ok o s' →
      o.any Value.isSignal = false →
      Evaluation.eval depth p scope s' = .ok (some w) s'' → w.isSignal = true →
      Evaluation.eval (depth + 1) (.program (before ++ p :: after)) scope s =
        .ok (some w.unwrapped) s'' := by
  refine ⟨fun depth n _ _ h => eval_eq_observe depth n h, ?_, ?_⟩
  · intro scope depth depth' n p s s' s'' w h hp hw
    exact Evaluation.eval_of_comesTo h hp hw
  · intro scope depth before after p s s' s'' o w hbefore ho hp hw
    exact Evaluation.runProgram_of_signal hbefore ho hp hw

/-- An array with a `return` in its second element and a `puts` in the third one, and a
program that goes on behind a `return`. -/
theorem signals_are_exceptions_array :
    ((Store.empty.addScope none).SignalFree 0 ∧
      Evaluation.eval 5
          (.array default [.integer default 1,
            .conditional default (.boolean default true)
              (.block default [.returnStatement default (.integer default 2)]) .missing,
            .call default (.identifier default "puts") [.integer default 3]])
          0 (Store.empty.addScope none) =
        Throwing.observe (Throwing.eval 5
          (.array default [.integer default 1,
            .conditional default (.boolean default true)
              (.block default [.returnStatement default (.integer default 2)]) .missing,
            .call default (.identifier default "puts") [.integer default 3]])
          0 (Store.empty.addScope none))) ∧
    (Evaluation.ComesTo 0 5
        (.array default [.integer default 1,
          .conditional default (.boolean default true)
            (.block default [.returnStatement default (.integer default 2)]) .missing,
          .call default (.identifier default "puts") [.integer default 3]])
        (Store.empty.addScope none) 2 (.returnStatement default (.integer default 2))
        (Store.empty.addScope none) ∧
      Evaluation.eval 5
          (.array default [.integer default 1,
            .conditional default (.boolean default true)
              (.block default [.returnStatement default (.integer default 2)]) .missing,
            .call default (.identifier default "puts") [.integer default 3]])
          0 (Store.empty.addScope none) =
        .ok (some (.returned 0 (.integer 2))) (Store.empty.addScope none).issue) ∧
    Evaluation.eval 3
        (.program [.integer default 1, .returnStatement default (.integer default 2),
          .call default (.identifier default "puts") [.integer default 3]])
        0 (Store.empty.addScope none) =
      .ok (some (.integer 2)) (Store.empty.addScope none).issue := by
  have hs : (Store.empty.addScope none).SignalFree 0 := by
    refine Store.signalFree_iff.mpr ⟨fun _ => True, trivial, ?_⟩
    exact (Store.plain_empty fun _ => trivial).addScope (by simp)
  have hreturn : Evaluation.eval 2 (.returnStatement default (.integer default 2)) 0
      (Store.empty.addScope none) =
        .ok (some (.returned 0 (.integer 2))) (Store.empty.addScope none).issue := rfl
  have hcomes : Evaluation.ComesTo 0 5
      (.array default [.integer default 1,
        .conditional default (.boolean default true)
          (.block default [.returnStatement default (.integer default 2)]) .missing,
        .call default (.identifier default "puts") [.integer default 3]])
      (Store.empty.addScope none) 2 (.returnStatement default (.integer default 2))
      (Store.empty.addScope none) := by
    have hones : Evaluation.values (Evaluation.eval 4) 0 [.integer default 1]
        (Store.empty.addScope none) = .ok (.ok [.integer 1]) (Store.empty.addScope none) := rfl
    refine .inside (.element hones) (.inside (.consequence rfl rfl rfl) ?_)
    exact .inside (@Evaluation.Comes.statement _ _ _ _ [] [] _ _ none rfl rfl) .here
  refine ⟨⟨hs, signals_are_exceptions.1 5 _ 0 _ hs⟩, ⟨hcomes, ?_⟩, ?_⟩
  · exact signals_are_exceptions.2.1 0 5 2 _ _ _ _ _ _ hcomes hreturn rfl
  · exact signals_are_exceptions.2.2 0 2 [.integer default 1] _ _ _ _ _ _ _ rfl rfl hreturn rfl

end Monkey
