import Monkey.Evaluation.Eval

/-!
# Where an evaluation comes to

An evaluation comes to a part of a tree when all the parts before it have given values.  If
the part gives a signal, then the whole gives that signal, and leaves the store as the part
left it: nothing that stands behind the part is evaluated, bound or printed.

A `return` ends at a function and at a program.  So the body of a function is no part of a
call here, and a program has a statement of its own.

## Main definitions

* `Evaluation.Comes` — the evaluation of a construct comes to one of its parts.
* `Evaluation.ComesTo` — the same through any number of constructs.

## Main results

* `Evaluation.eval_of_comesTo` — the signal of a part is the result of the whole.
* `Evaluation.runProgram_of_signal` — the signal of a statement ends a program.
-/

namespace Monkey.Evaluation

variable {α β : Type}

/-- What stands behind a first part that gives a result. -/
theorem bind_of_ok {e : Evaluation α} {k : α → Evaluation β} {s s' : Store} {a : α}
    (h : e s = .ok a s') : (e >>= k) s = k a s' := by
  simp only [bind, EStateM.bind, h]

/-- A result is that of both parts. -/
theorem exists_of_bind_eq_ok {e : Evaluation α} {k : α → Evaluation β} {s s'' : Store} {b : β}
    (h : (e >>= k) s = .ok b s'') : ∃ a s', e s = .ok a s' ∧ k a s' = .ok b s'' := by
  simp only [bind, EStateM.bind] at h
  cases he : e s with
  | ok a s' =>
    rw [he] at h
    exact ⟨a, s', rfl, h⟩
  | error why s' =>
    rw [he] at h
    cases h

section Constructs

variable {eval : Evaluator} {scope : ScopeId} {n p : Node} {s s' s'' : Store} {v w : Value}

/-! ### Single parts -/

theorem value_of_ok (h : eval n scope s = .ok (some v) s') :
    value eval n scope s = .ok v s' :=
  bind_of_ok h

theorem operand_of_signal {k : Value → Evaluation (Option Value)}
    (h : value eval n scope s = .ok w s') (hw : w.isSignal = true) :
    operand eval n scope k s = .ok (some w) s' := by
  rw [operand, bind_of_ok h, if_pos hw]
  rfl

theorem operand_of_value {k : Value → Evaluation (Option Value)}
    (h : value eval n scope s = .ok v s') (hv : v.isSignal = false) :
    operand eval n scope k s = k v s' := by
  rw [operand, bind_of_ok h, if_neg (Bool.eq_false_iff.mp hv)]

/-! ### Rows of parts -/

/-- A signal behind some values is that of the row. -/
theorem values_of_signal {before after : List Node} {vs : List Value}
    (hbefore : values eval scope before s = .ok (.ok vs) s')
    (hp : value eval p scope s' = .ok w s'') (hw : w.isSignal = true) :
    values eval scope (before ++ p :: after) s = .ok (.error w) s'' := by
  induction before generalizing s vs with
  | nil =>
    cases hbefore
    rw [List.nil_append, values, bind_of_ok hp, if_pos hw]
    rfl
  | cons m ms ih =>
    rw [values] at hbefore
    obtain ⟨u, s₁, hu, hbefore⟩ := exists_of_bind_eq_ok hbefore
    split at hbefore
    · cases hbefore
    · next hn =>
      obtain ⟨r, s₂, hr, hbefore⟩ := exists_of_bind_eq_ok hbefore
      cases r with
      | error signal => cases hbefore
      | ok us =>
        cases hbefore
        rw [List.cons_append, values, bind_of_ok hu, if_neg hn, bind_of_ok (ih hr)]
        rfl

/-- The pairs behind those that have given entries. -/
theorem entries_append {before after : List (Node × Node)} {done es : List (Value × Value)}
    (hbefore : entries eval scope before done s = .ok (.ok es) s') :
    entries eval scope (before ++ after) done s = entries eval scope after es s' := by
  induction before generalizing s done with
  | nil =>
    cases hbefore
    rfl
  | cons pair pairs ih =>
    rw [entries] at hbefore
    obtain ⟨k, s₁, hk, hbefore⟩ := exists_of_bind_eq_ok hbefore
    rw [List.cons_append, entries, bind_of_ok hk]
    split at hbefore
    · cases hbefore
    · next hsignal =>
      rw [if_neg hsignal]
      split at hbefore
      · cases hbefore
      · next hkey =>
        rw [if_neg hkey]
        obtain ⟨u, s₂, hu, hbefore⟩ := exists_of_bind_eq_ok hbefore
        rw [bind_of_ok hu]
        split at hbefore
        · cases hbefore
        · next hn =>
          rw [if_neg hn]
          exact ih hbefore

/-- The statements behind those that have given no signal. -/
theorem runBlock_append {before after : List Node} {last o : Option Value}
    (hbefore : runBlock eval scope before last s = .ok o s')
    (ho : o.any Value.isSignal = false) :
    runBlock eval scope (before ++ after) last s = runBlock eval scope after o s' := by
  induction before generalizing s last with
  | nil =>
    cases hbefore
    rfl
  | cons m ms ih =>
    rw [runBlock] at hbefore
    obtain ⟨u, s₁, hu, hbefore⟩ := exists_of_bind_eq_ok hbefore
    rw [List.cons_append, runBlock, bind_of_ok hu]
    split at hbefore
    · next hsignal =>
      cases hbefore
      rw [ho] at hsignal
      contradiction
    · next hn =>
      rw [if_neg hn]
      exact ih hbefore

/-- The statements of a program behind those that have given no signal. -/
theorem runProgram_append {before after : List Node} {last o : Option Value}
    (hbefore : runBlock eval scope before last s = .ok o s')
    (ho : o.any Value.isSignal = false) :
    runProgram eval scope (before ++ after) last s = runProgram eval scope after o s' := by
  induction before generalizing s last with
  | nil =>
    cases hbefore
    rfl
  | cons m ms ih =>
    rw [runBlock] at hbefore
    obtain ⟨u, s₁, hu, hbefore⟩ := exists_of_bind_eq_ok hbefore
    rw [List.cons_append, runProgram, bind_of_ok hu]
    split at hbefore
    · next hsignal =>
      cases hbefore
      rw [ho] at hsignal
      contradiction
    · next hn =>
      -- without a signal a program goes on as a block does
      split
      · exact absurd rfl hn
      · exact absurd rfl hn
      · exact ih hbefore

/-- A signal ends a program, which takes a `return` out of its wrapper. -/
theorem runProgram_of_signal {before after : List Node} {last o : Option Value}
    (hbefore : runBlock eval scope before last s = .ok o s')
    (ho : o.any Value.isSignal = false) (hp : eval p scope s' = .ok (some w) s'')
    (hw : w.isSignal = true) :
    runProgram eval scope (before ++ p :: after) last s = .ok (some w.unwrapped) s'' := by
  rw [runProgram_append hbefore ho, runProgram, bind_of_ok hp]
  cases w with
  | returned id v => rfl
  | error id fault => rfl
  | _ => cases hw

/-! ### Parts of constructs -/

/-- From `s`, the evaluation of a construct comes to one of its parts at another store, with
values for all parts before it. -/
inductive Comes (eval : Evaluator) (scope : ScopeId) : Node → Store → Node → Store → Prop
  | expression {t : Token} {p : Node} {s : Store} : Comes eval scope (.expressionStatement t p) s p s
  | letValue {t : Token} {name p : Node} {s : Store} : Comes eval scope (.letStatement t name p) s p s
  | returnValue {t : Token} {p : Node} {s : Store} : Comes eval scope (.returnStatement t p) s p s
  | prefixed {t : Token} {operator : String} {p : Node} {s : Store} :
    Comes eval scope (.prefixed t operator p) s p s
  | left {t : Token} {operator : String} {p r : Node} {s : Store} :
    Comes eval scope (.infixed t p operator r) s p s
  | right {t : Token} {operator : String} {l p : Node} {s s' : Store} {v : Value}
    (hl : value eval l scope s = .ok v s') (hv : v.isSignal = false) :
    Comes eval scope (.infixed t l operator p) s p s'
  | condition {t : Token} {p b a : Node} {s : Store} : Comes eval scope (.conditional t p b a) s p s
  | consequence {t : Token} {c p a : Node} {s s' : Store} {v : Value}
    (hc : value eval c scope s = .ok v s') (hv : v.isSignal = false) (holds : v.isTruthy = true) :
    Comes eval scope (.conditional t c p a) s p s'
  | alternative {t : Token} {c b p : Node} {s s' : Store} {v : Value}
    (hc : value eval c scope s = .ok v s') (hv : v.isSignal = false) (fails : v.isTruthy = false)
    (present : p.isMissing = false) : Comes eval scope (.conditional t c b p) s p s'
  | callee {t : Token} {p : Node} {arguments : List Node} {s : Store} :
    Comes eval scope (.call t p arguments) s p s
  | argument {t : Token} {f p : Node} {before after : List Node} {s s' s'' : Store} {v : Value}
    {vs : List Value} (hf : value eval f scope s = .ok v s') (hv : v.isSignal = false)
    (hbefore : values eval scope before s' = .ok (.ok vs) s'') :
    Comes eval scope (.call t f (before ++ p :: after)) s p s''
  | element {t : Token} {p : Node} {before after : List Node} {s s' : Store} {vs : List Value}
    (hbefore : values eval scope before s = .ok (.ok vs) s') :
    Comes eval scope (.array t (before ++ p :: after)) s p s'
  | key {t : Token} {p val : Node} {before after : List (Node × Node)} {s s' : Store}
    {es : List (Value × Value)} (hbefore : entries eval scope before [] s = .ok (.ok es) s') :
    Comes eval scope (.hash t (before ++ (p, val) :: after)) s p s'
  | entry {t : Token} {key p : Node} {before after : List (Node × Node)} {s s' s'' : Store}
    {es : List (Value × Value)} {v : Value}
    (hbefore : entries eval scope before [] s = .ok (.ok es) s')
    (hkey : value eval key scope s' = .ok v s'') (hv : v.isSignal = false)
    (usable : v.key?.isNone = false) :
    Comes eval scope (.hash t (before ++ (key, p) :: after)) s p s''
  | indexed {t : Token} {p i : Node} {s : Store} : Comes eval scope (.index t p i) s p s
  | subscript {t : Token} {l p : Node} {s s' : Store} {v : Value}
    (hl : value eval l scope s = .ok v s') (hv : v.isSignal = false) :
    Comes eval scope (.index t l p) s p s'
  | statement {t : Token} {p : Node} {before after : List Node} {s s' : Store} {o : Option Value}
    (hbefore : runBlock eval scope before none s = .ok o s')
    (ho : o.any Value.isSignal = false) :
    Comes eval scope (.block t (before ++ p :: after)) s p s'

/-- The signal of a part is the result of the construct. -/
theorem evalNode_of_comes (depth : Nat) (h : Comes eval scope n s p s')
    (hp : eval p scope s' = .ok (some w) s'') (hw : w.isSignal = true) :
    evalNode eval depth n scope s = .ok (some w) s'' := by
  have hvalue : value eval p scope s' = .ok w s'' := value_of_ok hp
  cases h with
  | expression => exact hp
  | letValue | returnValue | prefixed | left | condition | callee | indexed =>
    exact operand_of_signal hvalue hw
  | right hl hv | subscript hl hv =>
    exact (operand_of_value hl hv).trans (operand_of_signal hvalue hw)
  | consequence hc hv holds =>
    refine (operand_of_value hc hv).trans ?_
    rw [if_pos holds]
    exact hp
  | alternative hc hv fails present =>
    refine (operand_of_value hc hv).trans ?_
    rw [if_neg (Bool.eq_false_iff.mp fails), if_neg (Bool.eq_false_iff.mp present)]
    exact hp
  | argument hf hv hbefore =>
    refine (operand_of_value hf hv).trans ?_
    rw [bind_of_ok (values_of_signal hbefore hvalue hw)]
    rfl
  | element hbefore =>
    rw [evalNode, bind_of_ok (values_of_signal hbefore hvalue hw)]
    rfl
  | @key _ _ val before after _ _ es hbefore =>
    have hentries :
        entries eval scope (before ++ (p, val) :: after) [] s = .ok (.error w) s'' := by
      rw [entries_append hbefore, entries, bind_of_ok hvalue, if_pos hw]
      rfl
    rw [evalNode, bind_of_ok hentries]
    rfl
  | @entry _ key _ before after _ _ _ es v hbefore hkey hv usable =>
    -- the key has been looked at before its value is evaluated
    have hentries :
        entries eval scope (before ++ (key, p) :: after) [] s = .ok (.error w) s'' := by
      rw [entries_append hbefore, entries, bind_of_ok hkey, if_neg (Bool.eq_false_iff.mp hv),
        if_neg (Bool.eq_false_iff.mp usable), bind_of_ok hvalue, if_pos hw]
      rfl
    rw [evalNode, bind_of_ok hentries]
    rfl
  | statement hbefore ho =>
    have hany : (some w).any Value.isSignal = true := hw
    rw [evalNode, runBlock_append hbefore ho, runBlock, bind_of_ok hp, if_pos hany]
    rfl

end Constructs

/-! ### Parts of trees -/

/-- From `s`, the evaluation of a tree at some depth comes to a tree inside it, at the depth
and the store that are left. -/
inductive ComesTo (scope : ScopeId) : Nat → Node → Store → Nat → Node → Store → Prop
  | here {depth : Nat} {n : Node} {s : Store} : ComesTo scope depth n s depth n s
  | inside {depth depth' : Nat} {n m p : Node} {s s₁ s' : Store}
    (first : Comes (eval depth) scope n s m s₁) (others : ComesTo scope depth m s₁ depth' p s') :
    ComesTo scope (depth + 1) n s depth' p s'

/-- **The signal of a part is the result of the whole**, and the store stays as the part left
it. -/
theorem eval_of_comesTo {scope : ScopeId} {depth depth' : Nat} {n p : Node} {s s' s'' : Store}
    {w : Value} (h : ComesTo scope depth n s depth' p s')
    (hp : eval depth' p scope s' = .ok (some w) s'') (hw : w.isSignal = true) :
    eval depth n scope s = .ok (some w) s'' := by
  induction h with
  | here => exact hp
  | inside first _ ih => exact evalNode_of_comes _ first (ih hp) hw

end Monkey.Evaluation
