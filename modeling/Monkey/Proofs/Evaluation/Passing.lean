import Monkey.Proofs.Evaluation.Array
import Monkey.Proofs.Evaluation.Existing
import Monkey.Proofs.Evaluation.HashLiteral

/-!
# How values are handed on

A value is bound to a name, by `let` or as the argument of a call; it comes out of a function; it is
put into an array or a hash.  There it is found again, by its name, its index or its key.  On none
of these ways is it made anew: what is found is the value that was handed over, with the identity
that it has.

## Main definitions

* `Value.ElementAt` — an element of an array.

## Main results

* `Store.Frame.own` — a binding stays while other names are bound.
* `Evaluation.eval_let`, `Evaluation.own_of_enter`, `Evaluation.eval_identifier` — names.
* `Evaluation.apply_of_return`, `Evaluation.apply_of_last` — what comes out of a function.
* `Evaluation.eval_array_of_part`, `Evaluation.eval_hash_of_last` — what is put into arrays and
  hashes.
* `Value.ElementAt.read`, `Value.ElementAt.push`, `Value.ElementAt.rest` — elements are read, and
  copied with the array around them.
-/

namespace Monkey

variable {depth depth' : Nat} {token : Token} {scope i closure : ScopeId} {s s₁ s₂ t u : Store}
  {x : String} {v w : Value} {n name val : Node}

/-! ### Bindings -/

namespace Store

theorem own_bind (h : i < s.size) : ((s.bind i x v).bindings i).lookup x = some v := by
  have hthere : s.scopes[i]? = some s.scopes[i] := Array.getElem?_eq_getElem h
  have hbound : (s.bind i x v).scopes[i]? = some (s.scopes[i].set x v) := by
    rw [getElem?_scopes_bind, if_pos rfl, hthere, Option.map_some]
  rw [bindings_of_there hbound, Scope.set, Scope.lookup_put, if_pos rfl]

/-- Scopes that were there are there. -/
theorem Frame.lt_size {P : String → Prop} (h : s.Frame scope P t) (hi : i < s.size) :
    i < t.size := by
  obtain ⟨new, hnew, -⟩ := h i _ (Array.getElem?_eq_getElem hi)
  exact (Array.getElem?_eq_some_iff.mp hnew).1

/-- A binding stays as it is when nothing is written but other names, or to another scope. -/
theorem Frame.own {P : String → Prop} (h : s.Frame scope P t) (hP : i = scope → ¬P x)
    (hv : (s.bindings i).lookup x = some v) : (t.bindings i).lookup x = some v := by
  cases hc : s.scopes[i]? with
  | none =>
    rw [bindings, hc] at hv
    cases hv
  | some old =>
    obtain ⟨new, hnew, hown, hother⟩ := h i old hc
    rw [bindings_of_there hc] at hv
    rw [bindings_of_there hnew]
    by_cases hi : i = scope
    · rw [(hown hi).others x (hP hi), hv]
    · rw [hother hi, hv]

/-- A binding stays as it is when nothing is written to the scopes that are there. -/
theorem Untouched.own (h : s.Untouched t) (hv : (s.bindings i).lookup x = some v) :
    (t.bindings i).lookup x = some v := by
  have hframe : s.Frame i (fun _ => False) t := h.frame
  exact hframe.own (fun _ hfalse => hfalse) hv

end Store

/-! ### Elements -/

namespace Value

/-- A value is an element of an array. -/
def ElementAt (a : Value) (k : Nat) (v : Value) : Prop :=
  ∃ id es, a = .array id es ∧ es[k]? = some v

variable {a v : Value} {k depth : Nat}

/-- An element is read by its index, and at the ends by `first` and `last`. -/
theorem ElementAt.read (h : a.ElementAt k v) (depth : Nat) (s : Store) :
    a.subscript (.integer k) = .ok v ∧
    (k = 0 → Builtin.first.apply depth [a] s = .ok v s) ∧
    (¬(∃ w, a.ElementAt (k + 1) w) → Builtin.last.apply depth [a] s = .ok v s) := by
  obtain ⟨id, es, rfl, hv⟩ := h
  refine ⟨?_, ?_, fun hlast => ?_⟩
  · rw [subscript_natCast, hv, Option.getD_some]
  · rintro rfl
    rw [Builtin.apply_first, List.head?_eq_getElem?, hv, Option.getD_some]
  · have hlt : k < es.length := (List.getElem?_eq_some_iff.mp hv).1
    have hle : es.length ≤ k + 1 := by
      by_contra hmore
      exact hlast ⟨_, id, es, rfl, List.getElem?_eq_getElem (Nat.lt_of_not_le hmore)⟩
    have hend : es.length - 1 = k := by omega
    rw [Builtin.apply_last, List.getLast?_eq_getElem?, hend, hv, Option.getD_some]

/-- `push` copies the elements, and puts its second argument behind them. -/
theorem ElementAt.push (h : a.ElementAt k v) (depth : Nat) (w : Value) (s : Store) :
    ∃ b, Builtin.push.apply depth [a, w] s = .ok b s.issue ∧ b.ElementAt k v := by
  obtain ⟨id, es, rfl, hv⟩ := h
  have hlt : k < es.length := (List.getElem?_eq_some_iff.mp hv).1
  exact ⟨_, Builtin.apply_push, _, _, rfl, by rw [List.getElem?_append_left hlt, hv]⟩

theorem elementAt_pushed (depth : Nat) (id : Identity) (es : List Value) (v : Value) (s : Store) :
    ∃ b, Builtin.push.apply depth [.array id es, v] s = .ok b s.issue ∧
      b.ElementAt es.length v :=
  ⟨_, Builtin.apply_push, _, _, rfl, List.getElem?_concat_length⟩

/-- `rest` copies the elements, one place further to the front. -/
theorem ElementAt.rest (h : a.ElementAt (k + 1) v) (depth : Nat) (s : Store) :
    ∃ b, Builtin.rest.apply depth [a] s = .ok b s.issue ∧ b.ElementAt k v := by
  obtain ⟨id, es, rfl, hv⟩ := h
  cases es with
  | nil => cases hv
  | cons e es =>
    rw [List.getElem?_cons_succ] at hv
    exact ⟨_, Builtin.apply_rest, _, _, rfl, hv⟩

end Value

namespace Evaluation

theorem frame_of_ok {α : Type} {P : String → Prop} {e : Evaluation α} {a : α}
    (he : Writes scope P e) (h : e s = .ok a t) : s.Frame scope P t := by
  have hframe := he s
  rwa [after, h] at hframe

/-! ### Names -/

/-- A name is read. -/
theorem eval_identifier (h : s.lookup i x = some v) :
    eval (depth + 1) (.identifier token x) i s = .ok (some v) s := by
  have hname : identifier x i s = .ok v s := by
    rw [identifier, bind_of_ok (rfl : (get : Evaluation Store) s = .ok s s), h]
    rfl
  change (some <$> identifier x i) s = _
  simp only [Functor.map, EStateM.map, hname]

theorem bindName_of_boundName? (h : name.boundName? = some x) (i : ScopeId) (v : Value) :
    bindName i name v = modify (·.bind i x v) := by
  unfold Node.boundName? at h
  split at h
  · next hc =>
    cases h
    rw [bindName, hc]
  · cases h

/-- A name is bound by `let`: it has the value of the expression. -/
theorem eval_let (hname : name.boundName? = some x) (hscope : scope < s.size)
    (hval : value (eval depth) val scope s = .ok v t) (hv : v.isSignal = false) :
    ∃ u, eval (depth + 1) (.letStatement token name val) scope s = .ok none u ∧
      (u.bindings scope).lookup x = some v := by
  have hpresent : name.isPresent = true := by
    rw [Node.isPresent_iff]
    rintro rfl
    cases hname
  have hframe : s.Frame scope (fun _ => True) t :=
    frame_of_ok (writes_value (writes_eval depth) fun _ _ => trivial) hval
  refine ⟨t.bind scope x v, (operand_of_value hval hv).trans ?_,
    Store.own_bind (hframe.lt_size hscope)⟩
  rw [if_pos hpresent, bindName_of_boundName? hname]
  rfl

theorem bindNames_append (i : ScopeId) (bs cs : List (Node × Value)) :
    bindNames i (bs ++ cs) = (bindNames i bs >>= fun _ => bindNames i cs) := by
  induction bs with
  | nil => exact (pure_bind _ _).symm
  | cons b bs ih =>
    rw [List.cons_append, bindNames, ih, bindNames, bind_assoc]

/-- A name has the value of the last pair that binds it. -/
theorem own_of_bindNames {before after : List (Node × Value)} (hi : i < s.size)
    (hname : name.boundName? = some x) (hafter : ∀ b ∈ after, b.1.boundName? ≠ some x)
    (h : bindNames i (before ++ (name, v) :: after) s = .ok () t) :
    (t.bindings i).lookup x = some v := by
  rw [bindNames_append] at h
  obtain ⟨⟨⟩, s₁, hbefore, h⟩ := exists_of_bind_eq_ok h
  rw [bindNames, bindName_of_boundName? hname] at h
  obtain ⟨⟨⟩, s₂, hbind, h⟩ := exists_of_bind_eq_ok h
  cases hbind
  have hfirst : s.Frame i (fun _ => True) s₁ :=
    frame_of_ok (writes_bindNames fun _ _ _ _ => trivial) hbefore
  have hothers : Writes i (· ≠ x) (bindNames i after) :=
    writes_bindNames fun b hb text htext heq => hafter b hb (heq ▸ htext)
  exact (frame_of_ok hothers h).own (fun _ hne => hne rfl) (Store.own_bind (hfirst.lt_size hi))

/-- A name is bound by a call: it has the value of its argument. -/
theorem own_of_enter {parameters : List Node} {arguments : List Value}
    {before after : List (Node × Value)}
    (hzip : parameters.zip arguments = before ++ (name, v) :: after)
    (hname : name.boundName? = some x) (hafter : ∀ b ∈ after, b.1.boundName? ≠ some x)
    (h : enter closure parameters arguments s = .ok i t) : (t.bindings i).lookup x = some v := by
  obtain ⟨j, s₁, hnew, h⟩ := exists_of_bind_eq_ok h
  cases hnew
  obtain ⟨⟨⟩, s₂, hnames, h⟩ := exists_of_bind_eq_ok h
  cases h
  rw [hzip] at hnames
  have hi : s.size < (s.addScope (some closure)).size :=
    s.size_addScope (some closure) ▸ Nat.lt_succ_self _
  exact own_of_bindNames hi hname hafter hnames

/-! ### Functions -/

section Functions

variable {id : Identity} {parameters : List Node} {body : Node} {arguments : List Value}

/-- A call of a function or a builtin, once the values of its parts are there. -/
theorem eval_call {callee : Node} {parts : List Node} {f : Value} {vs : List Value}
    (h : values (eval depth) scope (callee :: parts) s = .ok (.ok (f :: vs)) t) :
    eval (depth + 1) (.call token callee parts) scope s =
      (some <$> apply (eval depth) depth f vs) t := by
  rw [values] at h
  obtain ⟨g, s₁, hg, h⟩ := exists_of_bind_eq_ok h
  split at h
  · cases h
  · next hsignal =>
    obtain ⟨r, s₂, hr, h⟩ := exists_of_bind_eq_ok h
    cases r with
    | error signal => cases h
    | ok us =>
      cases h
      refine (operand_of_value hg (Bool.eq_false_iff.mpr hsignal)).trans ?_
      rw [bind_of_ok hr]

theorem apply_of_body {eval : Evaluator} (henter : enter closure parameters arguments s = .ok i t)
    (hbody : value eval body i t = .ok v u) :
    apply eval depth (.function id parameters body closure) arguments s = .ok v.unwrapped u := by
  rw [apply, bind_of_ok henter, bind_of_ok hbody]
  rfl

theorem unwrapped_of_not_signal (h : v.isSignal = false) : v.unwrapped = v := by
  cases v with
  | returned => cases h
  | _ => rfl

/-- The value of the body comes out of a function. -/
theorem apply_of_last {eval : Evaluator} (henter : enter closure parameters arguments s = .ok i t)
    (hbody : value eval body i t = .ok v u) (hv : v.isSignal = false) :
    apply eval depth (.function id parameters body closure) arguments s = .ok v u := by
  rw [apply_of_body henter hbody, unwrapped_of_not_signal hv]

/-- The operand of a `return` comes out of a function, wherever in the body the `return` is. -/
theorem apply_of_return {depth'' : Nat} (henter : enter closure parameters arguments s = .ok i t)
    (hcomes : ComesTo i depth body t (depth' + 1) (.returnStatement token val) s₁)
    (hval : value (eval depth') val i s₁ = .ok v s₂) (hv : v.isSignal = false) :
    apply (eval depth) depth'' (.function id parameters body closure) arguments s =
      .ok v s₂.issue := by
  have hreturn : eval (depth' + 1) (.returnStatement token val) i s₁ =
      .ok (some (.returned s₂.next v)) s₂.issue := operand_of_value hval hv
  exact apply_of_body henter (value_of_ok (eval_of_comesTo hcomes hreturn rfl))

end Functions

/-! ### Arrays and hashes -/

theorem values_cons {eval : Evaluator} {ns : List Node} {vs : List Value}
    (hn : value eval n scope s = .ok v s₁) (hv : v.isSignal = false)
    (hns : values eval scope ns s₁ = .ok (.ok vs) t) :
    values eval scope (n :: ns) s = .ok (.ok (v :: vs)) t := by
  rw [values, bind_of_ok hn, if_neg (Bool.eq_false_iff.mp hv), bind_of_ok hns]
  rfl

/-- The value of a part stands where the part stands. -/
theorem values_append_cons {eval : Evaluator} {before after : List Node} {us ws : List Value}
    (hbefore : values eval scope before s = .ok (.ok us) s₁)
    (hn : value eval n scope s₁ = .ok v s₂) (hv : v.isSignal = false)
    (hafter : values eval scope after s₂ = .ok (.ok ws) t) :
    values eval scope (before ++ n :: after) s = .ok (.ok (us ++ v :: ws)) t := by
  induction before generalizing s us with
  | nil =>
    cases hbefore
    exact values_cons hn hv hafter
  | cons m ms ih =>
    rw [values] at hbefore
    obtain ⟨r, s', hm, hbefore⟩ := exists_of_bind_eq_ok hbefore
    split at hbefore
    · cases hbefore
    · next hr =>
      obtain ⟨o, s'', ho, hbefore⟩ := exists_of_bind_eq_ok hbefore
      cases o with
      | error signal => cases hbefore
      | ok us =>
        cases hbefore
        exact values_cons hm (Bool.eq_false_iff.mpr hr) (ih ho)

theorem length_of_values {eval : Evaluator} {ns : List Node} {vs : List Value}
    (h : values eval scope ns s = .ok (.ok vs) t) : vs.length = ns.length := by
  induction ns generalizing s vs with
  | nil =>
    cases h
    rfl
  | cons n ns ih =>
    rw [values] at h
    obtain ⟨v, s', -, h⟩ := exists_of_bind_eq_ok h
    split at h
    · cases h
    · obtain ⟨o, s'', ho, h⟩ := exists_of_bind_eq_ok h
      cases o with
      | error signal => cases h
      | ok us =>
        cases h
        rw [List.length_cons, List.length_cons, ih ho]

/-- The values of some parts make an array. -/
theorem eval_array {elements : List Node} {vs : List Value}
    (h : values (eval depth) scope elements s = .ok (.ok vs) t) :
    eval (depth + 1) (.array token elements) scope s = .ok (some (.array t.next vs)) t.issue := by
  rw [eval, evalNode, bind_of_ok h]
  rfl

/-- The value of a part is an element of the array. -/
theorem eval_array_of_part {before after : List Node} {us ws : List Value}
    (hbefore : values (eval depth) scope before s = .ok (.ok us) s₁)
    (hn : value (eval depth) n scope s₁ = .ok v s₂) (hv : v.isSignal = false)
    (hafter : values (eval depth) scope after s₂ = .ok (.ok ws) t) :
    ∃ a, eval (depth + 1) (.array token (before ++ n :: after)) scope s = .ok (some a) t.issue ∧
      a.ElementAt before.length v := by
  refine ⟨_, eval_array (values_append_cons hbefore hn hv hafter), _, _, rfl, ?_⟩
  rw [← length_of_values hbefore, List.getElem?_append_right (Nat.le_refl _), Nat.sub_self]
  rfl

/-- An index or a key is looked up. -/
theorem eval_index {left subscript : Node} {a k : Value}
    (hleft : value (eval depth) left scope s = .ok a s₁) (ha : a.isSignal = false)
    (hsubscript : value (eval depth) subscript scope s₁ = .ok k t) (hk : k.isSignal = false)
    (hv : a.subscript k = .ok v) :
    eval (depth + 1) (.index token left subscript) scope s = .ok (some v) t := by
  refine (operand_of_value hleft ha).trans ((operand_of_value hsubscript hk).trans ?_)
  rw [hv]
  rfl

/-- The value of the last pair of a key is found under the key. -/
theorem eval_hash_of_last {pairs : List (Node × Node)} {before after : List (Value × Value)}
    {k : Value} (h : PairsCome (eval depth) scope s pairs (before ++ (k, v) :: after) t)
    (hafter : ∀ p ∈ after, p.1.key? ≠ k.key?) :
    ∃ es, eval (depth + 1) (.hash token pairs) scope s = .ok (some (.hash t.next es)) t.issue ∧
      Value.subscript (.hash t.next es) k = .ok v := by
  refine ⟨Value.putEntries [] (before ++ (k, v) :: after), ?_, ?_⟩
  · rw [eval, evalNode, bind_of_ok (entries_of_pairsCome h [])]
    rfl
  · have hk : k.kind ∈ Value.keyKinds := h.usable (k, v) (by simp)
    rw [Value.subscript_putEntries _ _ hk, Value.lastUnder?_append_cons hafter]
    rfl

end Evaluation

end Monkey
