import Monkey.Proofs.Evaluation.Contained
import Monkey.Proofs.Evaluation.Ensures
import Monkey.Proofs.Syntax.Regular

/-!
# Nothing but the depth stops a text

Whatever a text is, the parser gives a regular tree, with complaints or without.  A regular tree
is evaluated to regular values only, and stores regular values only: so the evaluation of any text,
broken off or not, stops only when it goes too deep, and the tree and what comes of it can be
shown.

## Main definitions

* `Value.Regular` — the values whose functions have names for parameters and regular bodies.
* `Store.Binds` — what holds of every value that is bound in a store.
* `OnlyDepthStops` — what is given at every depth that is great enough, and stopped by the depth
  alone.

## Main results

* `Value.Regular.obstacle` — only the depth can stop a regular value from being shown.
* `regularly_eval` — regular trees are evaluated to regular values, unless they go too deep.
* `parsed_never_fails` — whatever the text, only the depth stops its tree from being shown and
  evaluated, and what comes of it from being shown.
-/

namespace Monkey

/-! ### Regular values -/

/-- The values in which every function has names for its parameters and a regular body. -/
inductive Value.Regular : Value → Prop
  | integer (n : Int) : Regular (.integer n)
  | boolean (b : Bool) : Regular (.boolean b)
  | null : Regular .null
  | string (text : String) : Regular (.string text)
  | array (id : Identity) {elements : List Value} (regular : ∀ v ∈ elements, Regular v) :
    Regular (.array id elements)
  | hash (id : Identity) {entries : List (Value × Value)} (keys : ∀ e ∈ entries, Regular e.1)
    (values : ∀ e ∈ entries, Regular e.2) : Regular (.hash id entries)
  | function (id : Identity) {parameters : List Node} {body : Node} (scope : ScopeId)
    (names : ∀ n ∈ parameters, n.kind = .identifier) (present : body.isPresent)
    (body_regular : body.Regular) : Regular (.function id parameters body scope)
  | builtin (b : Builtin) : Regular (.builtin b)
  | returned (id : Identity) {v : Value} (inner : Regular v) : Regular (.returned id v)
  | error (id : Identity) (fault : Fault) : Regular (.error id fault)

namespace Value

variable {v : Value}

/-- A plain value without functions is regular. -/
theorem Plain.regular (h : v.Plain fun _ => False) : v.Regular := by
  induction h with
  | integer n => exact .integer n
  | boolean b => exact .boolean b
  | null => exact .null
  | string text => exact .string text
  | array id _ ih => exact .array id ih
  | hash id _ _ ihk ihv => exact .hash id ihk ihv
  | function _ _ _ known => exact known.elim
  | builtin b => exact .builtin b

theorem Regular.elements {id : Identity} {elements : List Value}
    (h : (Value.array id elements).Regular) : ∀ v ∈ elements, v.Regular := by
  cases h with
  | array _ regular => exact regular

theorem Regular.unwrapped (h : v.Regular) : v.unwrapped.Regular := by
  cases h with
  | returned _ inner => exact inner
  | integer n => exact .integer n
  | boolean b => exact .boolean b
  | null => exact .null
  | string text => exact .string text
  | array id regular => exact .array id regular
  | hash id keys values => exact .hash id keys values
  | function id scope names present body => exact .function id scope names present body
  | builtin b => exact .builtin b
  | error id fault => exact .error id fault

/-- What may be missing is regular if null takes its place. -/
theorem regular_getD {o : Option Value} (h : ∀ v ∈ o, v.Regular) : (o.getD .null).Regular := by
  cases o with
  | none => exact .null
  | some v => exact h v rfl

theorem regular_of_subscript {left i : Value} (hl : left.Regular)
    (h : left.subscript i = .ok v) : v.Regular := by
  cases hl with
  | array id regular =>
    cases i <;> cases h
    split
    · exact .null
    · exact regular_getD fun w hw => regular w (List.mem_of_getElem? hw)
  | hash id keys values =>
    simp only [subscript] at h
    split at h <;> cases h
    refine regular_getD fun w hw => ?_
    obtain ⟨e, he, rfl⟩ := mem_of_valueUnder? hw
    exact values e he
  | _ => simp [subscript] at h

/-- A regular value can be shown, except at a depth no greater than its size. -/
theorem Regular.obstacle {depth : Nat} {why : Stop} (h : v.Regular)
    (stopped : v.obstacle? depth = some why) : why = .tooDeep ∧ depth ≤ sizeOf v := by
  induction depth generalizing v why with
  | zero =>
    rw [obstacle?] at stopped
    exact ⟨(Option.some.inj stopped).symm, Nat.zero_le _⟩
  | succ depth ih =>
    cases h with
    | integer | boolean | null | string | builtin | error => cases stopped
    | array id regular =>
      rw [obstacle?] at stopped
      obtain ⟨w, hw, hstopped⟩ := List.exists_of_findSome?_eq_some stopped
      obtain ⟨rfl, hd⟩ := ih (regular w hw) hstopped
      have hsize := List.sizeOf_lt_of_mem hw
      exact ⟨rfl, by simp only [array.sizeOf_spec]; omega⟩
    | hash id keys values =>
      rw [obstacle?] at stopped
      obtain ⟨e, he, hstopped⟩ := List.exists_of_findSome?_eq_some stopped
      have hsize := List.sizeOf_lt_of_mem he
      obtain ⟨k, w⟩ := e
      simp only [Prod.mk.sizeOf_spec] at hsize
      rcases Option.or_eq_some_iff.mp hstopped with hstopped | ⟨-, hstopped⟩
      · obtain ⟨rfl, hd⟩ := ih (v := k) (keys _ he) hstopped
        exact ⟨rfl, by simp only [hash.sizeOf_spec]; omega⟩
      · obtain ⟨rfl, hd⟩ := ih (v := w) (values _ he) hstopped
        exact ⟨rfl, by simp only [hash.sizeOf_spec]; omega⟩
    | function id scope names present body =>
      rw [obstacle?] at stopped
      obtain ⟨n, hn, hstopped⟩ := List.exists_of_findSome?_eq_some stopped
      rcases List.mem_append.mp hn with hn | hn
      · have hname := names n hn
        obtain ⟨rfl, hd⟩ :=
          (Node.regular_of_kind hname).textObstacle (Node.isPresent_of_kind hname) hstopped
        have hsize := List.sizeOf_lt_of_mem hn
        exact ⟨rfl, by simp only [function.sizeOf_spec]; omega⟩
      · obtain rfl := List.mem_singleton.mp hn
        obtain ⟨rfl, hd⟩ := body.textObstacle present hstopped
        exact ⟨rfl, by simp only [function.sizeOf_spec]; omega⟩
    | returned id inner =>
      rw [obstacle?] at stopped
      obtain ⟨rfl, hd⟩ := ih inner stopped
      exact ⟨rfl, by simp only [returned.sizeOf_spec]; omega⟩

end Value

/-! ### Stores -/

/-- Every value that is bound in the store is of `P`. -/
def Store.Binds (P : Value → Prop) (s : Store) : Prop :=
  ∀ (i : ScopeId) (here : Scope), s.scopes[i]? = some here → ∀ b ∈ here.bindings, P b.2

namespace Store

variable {P : Value → Prop} {s : Store}

theorem binds_empty : Store.empty.Binds P := by
  intro i here is_there
  simp [Store.empty] at is_there

theorem Binds.issue (h : s.Binds P) : s.issue.Binds P := h

theorem Binds.print (h : s.Binds P) (line : String) : (s.print line).Binds P := h

theorem Binds.bind (h : s.Binds P) (scope : ScopeId) (name : String) {v : Value} (hv : P v) :
    (s.bind scope name v).Binds P := by
  intro i here is_there b hb
  obtain ⟨old, hold, rfl | rfl⟩ := getElem?_bind is_there
  · exact h i here hold b hb
  · rcases mem_put hb with hb | rfl
    · exact h i old hold b hb
    · exact hv

theorem Binds.addScope (h : s.Binds P) (outer : Option ScopeId) : (s.addScope outer).Binds P := by
  intro i here is_there b hb
  simp only [Store.addScope, Array.getElem?_push] at is_there
  split at is_there
  · cases is_there
    cases hb
  · exact h i here is_there b hb

theorem Binds.lookup (h : s.Binds P) {scope : ScopeId} {name : String} {v : Value}
    (hv : s.lookup scope name = some v) : P v := by
  fun_induction s.lookup scope name with
  | case1 => cases hv
  | case2 scope here is_there w hw =>
    cases hv
    obtain ⟨l₁, l₂, hb, -⟩ := List.lookup_eq_some_iff.mp hw
    exact h scope here is_there (name, v) (by simp [hb])
  | case3 => cases hv
  | case4 scope here is_there hnone o ho hlt ih => exact ih hv
  | case5 => cases hv

end Store

/-! ### Evaluation -/

namespace Evaluation

variable {α : Type}

/-- With regular values only in the store, the evaluation gives something of `Q` and leaves only
regular values there, or it goes too deep. -/
abbrev Regularly (Q : α → Prop) (e : Evaluation α) : Prop :=
  Ensures (Store.Binds Value.Regular) (· = .tooDeep) Q e

theorem regularly_issue : Regularly (fun _ => True) issue :=
  ensures_issue fun _ hs => hs.issue

theorem regularly_raise (fault : Fault) : Regularly Value.Regular (raise fault) :=
  ensures_raise (fun _ hs => hs.issue) fun id => .error id fault

theorem regularly_settle {r : Except Fault Value} (h : ∀ v, r = .ok v → v.Regular) :
    Regularly Value.Regular (settle r) :=
  ensures_settle (fun _ hs => hs.issue) h fun fault _ id => .error id fault

theorem regularly_printLine (depth : Nat) {v : Value} (h : v.Regular) :
    Regularly (fun _ => True) (printLine depth v) := by
  unfold printLine Value.inspect?
  cases ho : v.obstacle? depth with
  | none => exact .modify fun s hs => hs.print _
  | some why => exact .throw (h.obstacle ho).1

theorem regularly_bindName (scope : ScopeId) {name : Node} {v : Value}
    (hname : name.kind = .identifier) (hv : v.Regular) :
    Regularly (fun _ => True) (bindName scope name v) := by
  obtain ⟨token, x, rfl⟩ := Node.exists_identifier_of_kind hname
  exact .modify fun s hs => hs.bind scope x hv

theorem regularly_bindNames (scope : ScopeId) {bs : List (Node × Value)}
    (hnames : ∀ b ∈ bs, b.1.kind = .identifier) (hvalues : ∀ b ∈ bs, b.2.Regular) :
    Regularly (fun _ => True) (bindNames scope bs) := by
  induction bs with
  | nil => exact .pure trivial
  | cons b bs ih =>
    obtain ⟨name, v⟩ := b
    obtain ⟨hname, hnames⟩ := List.forall_mem_cons.mp hnames
    obtain ⟨hv, hvalues⟩ := List.forall_mem_cons.mp hvalues
    exact (regularly_bindName scope hname hv).bind fun _ _ => ih hnames hvalues

theorem regularly_enter (closure : ScopeId) {parameters : List Node} {arguments : List Value}
    (hnames : ∀ n ∈ parameters, n.kind = .identifier) (hargs : ∀ v ∈ arguments, v.Regular) :
    Regularly (fun _ => True) (enter closure parameters arguments) := by
  have hnew : Regularly (fun _ => True)
      (modifyGet fun s => (s.size, s.addScope (some closure)) : Evaluation ScopeId) :=
    fun s hs => ⟨hs.addScope _, trivial⟩
  refine hnew.bind fun scope _ => ?_
  refine (regularly_bindNames scope (fun b hb => ?_) fun b hb => ?_).bind fun _ _ =>
    .pure trivial
  · exact hnames b.1 (List.of_mem_zip hb).1
  · exact hargs b.2 (List.of_mem_zip hb).2

/-! ### Builtins -/

theorem regularly_onOne {f : Value → Evaluation Value}
    (hf : ∀ v, v.Regular → Regularly Value.Regular (f v)) :
    ∀ {vs : List Value}, (∀ v ∈ vs, v.Regular) → Regularly Value.Regular (Builtin.onOne f vs)
  | [], _ => regularly_raise _
  | [v], h => hf v (h v List.mem_cons_self)
  | _ :: _ :: _, _ => regularly_raise _

theorem regularly_onArray (b : Builtin) {f : List Value → Evaluation Value}
    (hf : ∀ vs, (∀ v ∈ vs, v.Regular) → Regularly Value.Regular (f vs)) (v : Value)
    (hv : v.Regular) : Regularly Value.Regular (Builtin.onArray b f v) := by
  cases hv with
  | array id regular => exact hf _ regular
  | _ => exact regularly_raise _

theorem regularly_length (v : Value) : Regularly Value.Regular (Builtin.length v) := by
  cases v with
  | string text => exact .pure (.integer _)
  | array id elements => exact .pure (.integer _)
  | _ => exact regularly_raise _

theorem regularly_restOf (elements : List Value) (h : ∀ v ∈ elements, v.Regular) :
    Regularly Value.Regular (Builtin.restOf elements) := by
  cases elements with
  | nil => exact .pure .null
  | cons v vs =>
    exact regularly_issue.bind fun id _ => .pure (.array id (List.forall_mem_cons.mp h).2)

theorem regularly_pushOnto {vs : List Value} (h : ∀ v ∈ vs, v.Regular) :
    Regularly Value.Regular (Builtin.pushOnto vs) := by
  unfold Builtin.pushOnto
  split
  · obtain ⟨harray, h⟩ := List.forall_mem_cons.mp h
    refine regularly_issue.bind fun id _ => .pure (.array id fun w hw => ?_)
    exact (List.mem_append.mp hw).elim (harray.elements w) (h w)
  · exact regularly_raise _
  · exact regularly_raise _

theorem regularly_printAll (depth : Nat) {vs : List Value} (h : ∀ v ∈ vs, v.Regular) :
    Regularly Value.Regular (Builtin.printAll depth vs) := by
  induction vs with
  | nil => exact .pure .null
  | cons v vs ih =>
    obtain ⟨hv, hvs⟩ := List.forall_mem_cons.mp h
    exact (regularly_printLine depth hv).bind fun _ _ => ih hvs

theorem regularly_applyBuiltin (depth : Nat) (b : Builtin) {vs : List Value}
    (h : ∀ v ∈ vs, v.Regular) : Regularly Value.Regular (b.apply depth vs) := by
  cases b with
  | first =>
    refine regularly_onOne (regularly_onArray _ fun elements he => .pure ?_) h
    exact Value.regular_getD fun w hw => he w (List.mem_of_mem_head? hw)
  | last =>
    refine regularly_onOne (regularly_onArray _ fun elements he => .pure ?_) h
    exact Value.regular_getD fun w hw => he w (List.mem_of_mem_getLast? hw)
  | len => exact regularly_onOne (fun v _ => regularly_length v) h
  | push => exact regularly_pushOnto h
  | puts => exact regularly_printAll depth h
  | rest => exact regularly_onOne (regularly_onArray _ regularly_restOf) h

/-! ### Constructs -/

section Constructs

variable {eval : Evaluator} {scope : ScopeId}

/-- Regular trees give regular values. -/
def RegularAll (eval : Evaluator) : Prop :=
  ∀ (n : Node) (scope : ScopeId), n.Regular →
    Regularly (fun o => ∀ v ∈ o, v.Regular) (eval n scope)

theorem regularly_value (h : RegularAll eval) {n : Node} (hn : n.Regular) :
    Regularly Value.Regular (value eval n scope) :=
  ensures_value ((h n scope hn).mono (fun _ => id) fun _ => Value.regular_getD)

theorem regularly_operand (h : RegularAll eval) {n : Node} (hn : n.Regular)
    {k : Value → Evaluation (Option Value)}
    (hk : ∀ v, v.Regular → Regularly (fun o => ∀ v ∈ o, v.Regular) (k v)) :
    Regularly (fun o => ∀ v ∈ o, v.Regular) (operand eval n scope k) :=
  ensures_operand (regularly_value h hn) (fun _ hv _ _ hw => Option.some.inj hw ▸ hv)
    fun v hv _ => hk v hv

/-- A value that is given as it is. -/
theorem regularly_some {e : Evaluation Value} (h : Regularly Value.Regular e) :
    Regularly (fun o => ∀ v ∈ o, v.Regular) (some <$> e) :=
  .map some (h.mono (fun _ => id) fun _ hv _ hw => Option.some.inj hw ▸ hv)

theorem regularly_pure_some {v : Value} (h : v.Regular) :
    Regularly (fun o => ∀ v ∈ o, v.Regular) (pure (some v)) :=
  .pure fun _ hw => Option.some.inj hw ▸ h

/-- The values of a list, or the signal that ended it. -/
def RegularList (r : Except Value (List Value)) : Prop :=
  match r with
  | .ok vs => ∀ v ∈ vs, v.Regular
  | .error signal => signal.Regular

/-- The entries of a hash, or the signal that ended it. -/
def RegularEntries (r : Except Value (List (Value × Value))) : Prop :=
  match r with
  | .ok es => ∀ e ∈ es, e.1.Regular ∧ e.2.Regular
  | .error signal => signal.Regular

theorem regularly_values (h : RegularAll eval) {ns : List Node} (hns : ∀ n ∈ ns, n.Regular) :
    Regularly RegularList (values eval scope ns) := by
  induction ns with
  | nil => exact .pure (List.forall_mem_nil _)
  | cons n ns ih =>
    obtain ⟨hn, hns⟩ := List.forall_mem_cons.mp hns
    refine (regularly_value h hn).bind fun v hv => .ite (fun _ => .pure hv) fun _ => ?_
    refine (ih hns).bind fun r hr => ?_
    cases r with
    | error signal => exact .pure hr
    | ok vs => exact .pure (List.forall_mem_cons.mpr ⟨hv, hr⟩)

theorem regularly_entries (h : RegularAll eval) {ps : List (Node × Node)}
    (hkeys : ∀ p ∈ ps, p.1.Regular) (hvalues : ∀ p ∈ ps, p.2.Regular)
    {done : List (Value × Value)} (hdone : ∀ e ∈ done, e.1.Regular ∧ e.2.Regular) :
    Regularly RegularEntries (entries eval scope ps done) := by
  induction ps generalizing done with
  | nil => exact .pure hdone
  | cons p ps ih =>
    obtain ⟨key, val⟩ := p
    obtain ⟨hkey, hkeys⟩ := List.forall_mem_cons.mp hkeys
    obtain ⟨hval, hvalues⟩ := List.forall_mem_cons.mp hvalues
    refine (regularly_value h hkey).bind fun k hk => .ite (fun _ => .pure hk) fun _ => ?_
    refine .ite (fun _ => (regularly_raise _).bind fun e he => .pure he) fun _ => ?_
    refine (regularly_value h hval).bind fun v hv => .ite (fun _ => .pure hv) fun _ => ?_
    refine ih hkeys hvalues fun e he => ?_
    rcases Value.mem_putEntry he with he | rfl
    · exact hdone e he
    · exact ⟨hk, hv⟩

theorem regularly_apply (h : RegularAll eval) (depth : Nat) {callee : Value}
    {arguments : List Value} (hcallee : callee.Regular) (hargs : ∀ v ∈ arguments, v.Regular) :
    Regularly Value.Regular (apply eval depth callee arguments) := by
  cases hcallee with
  | function id closure names present body =>
    refine (regularly_enter closure names hargs).bind fun scope _ => ?_
    exact (regularly_value h body).bind fun v hv => .pure hv.unwrapped
  | builtin b => exact regularly_applyBuiltin depth b hargs
  | _ => exact regularly_raise _

theorem regularly_runProgram (h : RegularAll eval) {ns : List Node} (hns : ∀ n ∈ ns, n.Regular)
    {last : Option Value} (hlast : ∀ v ∈ last, v.Regular) :
    Regularly (fun o => ∀ v ∈ o, v.Regular) (runProgram eval scope ns last) := by
  induction ns generalizing last with
  | nil => exact .pure hlast
  | cons n ns ih =>
    obtain ⟨hn, hns⟩ := List.forall_mem_cons.mp hns
    refine (h n scope hn).bind fun o ho => ?_
    split
    · next id v => exact regularly_pure_some (ho _ rfl).unwrapped
    · next id fault => exact regularly_pure_some (.error id fault)
    · exact ih hns ho

theorem regularly_runBlock (h : RegularAll eval) {ns : List Node} (hns : ∀ n ∈ ns, n.Regular)
    {last : Option Value} (hlast : ∀ v ∈ last, v.Regular) :
    Regularly (fun o => ∀ v ∈ o, v.Regular) (runBlock eval scope ns last) := by
  induction ns generalizing last with
  | nil => exact .pure hlast
  | cons n ns ih =>
    obtain ⟨hn, hns⟩ := List.forall_mem_cons.mp hns
    exact (h n scope hn).bind fun o ho => .ite (fun _ => .pure ho) fun _ => ih hns ho

theorem regularly_identifier (name : String) (scope : ScopeId) :
    Regularly Value.Regular (identifier name scope) := by
  refine .get_bind fun s hs => ?_
  split
  · next v hv => exact .pure (hs.lookup hv)
  · split
    · next b _ => exact .pure (.builtin b)
    · exact regularly_raise _

theorem regularly_evalNode (h : RegularAll eval) (depth : Nat) {n : Node} (hn : n.Regular)
    (scope : ScopeId) :
    Regularly (fun o => ∀ v ∈ o, v.Regular) (evalNode eval depth n scope) := by
  cases hn with
  | missing => exact .pure fun _ hv => nomatch hv
  | program _ items => exact regularly_runProgram h items fun _ hv => nomatch hv
  | block _ _ items => exact regularly_runBlock h items fun _ hv => nomatch hv
  | expressionStatement _ hx => exact h _ scope hx
  | letStatement token name x hv =>
    refine regularly_operand h hv fun v hv => ?_
    exact (regularly_bindName scope rfl hv).bind fun _ _ => .pure fun _ hv => nomatch hv
  | returnStatement _ hv =>
    refine regularly_operand h hv fun v hv => ?_
    exact regularly_issue.bind fun id _ => regularly_pure_some (.returned id hv)
  | identifier _ name => exact regularly_some (regularly_identifier name scope)
  | integer _ n => exact regularly_pure_some (.integer n)
  | boolean _ b => exact regularly_pure_some (.boolean b)
  | string _ text => exact regularly_pure_some (.string text)
  | prefixed _ operator hr =>
    refine regularly_operand h hr fun r _ => regularly_some (regularly_settle fun v hv => ?_)
    exact (Value.plain_of_applyPrefix hv).regular
  | infixed _ operator hl hr =>
    refine regularly_operand h hl fun l _ => regularly_operand h hr fun r _ => ?_
    exact regularly_some (regularly_settle fun v hv => (Value.plain_of_applyInfix hv).regular)
  | conditional _ hc hq ha =>
    refine regularly_operand h hc fun c _ => .ite (fun _ => h _ scope hq) fun _ => ?_
    exact .ite (fun _ => regularly_pure_some .null) fun _ => h _ scope ha
  | @function token parameters body names hb =>
    refine regularly_issue.bind fun id _ => regularly_pure_some ?_
    -- the body of a function is an empty block if it is missing
    by_cases missing : body.isMissing
    · rw [if_pos missing]
      exact .function id scope names rfl (.block token (List.forall_mem_nil _)
        (List.forall_mem_nil _))
    · rw [if_neg missing]
      exact .function id scope names (by simp [Node.isPresent, missing]) hb
  | call _ hc _ items =>
    refine regularly_operand h hc fun f hf => (regularly_values h items).bind fun r hr => ?_
    cases r with
    | error signal => exact regularly_pure_some hr
    | ok vs => exact regularly_some (regularly_apply h depth hf hr)
  | array _ _ items =>
    refine (regularly_values h items).bind fun r hr => ?_
    cases r with
    | error signal => exact regularly_pure_some hr
    | ok vs => exact regularly_issue.bind fun id _ => regularly_pure_some (.array id hr)
  | hash _ _ keys values =>
    refine (regularly_entries h keys values (List.forall_mem_nil _)).bind fun r hr => ?_
    cases r with
    | error signal => exact regularly_pure_some hr
    | ok es =>
      exact regularly_issue.bind fun id _ => regularly_pure_some
        (.hash id (fun e he => (hr e he).1) fun e he => (hr e he).2)
  | index _ hl hs =>
    refine regularly_operand h hl fun l hl => regularly_operand h hs fun i _ => ?_
    exact regularly_some (regularly_settle fun v hv => Value.regular_of_subscript hl hv)

end Constructs

/-- Regular trees are evaluated to regular values, unless they go too deep. -/
theorem regularly_eval (depth : Nat) : RegularAll (eval depth) := by
  induction depth with
  | zero => exact fun _ _ _ => .throw rfl
  | succ depth ih => exact fun n scope hn => regularly_evalNode ih depth hn scope

end Evaluation

/-! ### Texts -/

/-- What is given at every depth that is great enough, and stopped by nothing but the depth. -/
def OnlyDepthStops {α : Type} (show? : Nat → Except Stop α) : Prop :=
  (∀ depth why, show? depth = .error why → why = .tooDeep) ∧
    ∃ bound, ∀ depth, bound < depth → ∃ a, show? depth = .ok a

/-- What can only be stopped by the depth, and only down to a bound. -/
theorem onlyDepthStops_of_obstacle {α : Type} {obstacle? : Nat → Option Stop} {a : α}
    {bound : Nat} (h : ∀ depth why, obstacle? depth = some why → why = .tooDeep ∧ depth ≤ bound) :
    OnlyDepthStops fun depth => match obstacle? depth with
      | some why => .error why
      | none => .ok a := by
  refine ⟨fun depth why stopped => ?_, bound, fun depth hd => ?_⟩
  · dsimp only at stopped
    split at stopped
    · next why' ho => exact Except.error.inj stopped ▸ (h depth why' ho).1
    · cases stopped
  · dsimp only
    split
    · next why ho => exact absurd (h depth why ho).2 (Nat.not_le_of_lt hd)
    · exact ⟨a, rfl⟩

theorem Node.Regular.onlyDepthStops_text {n : Node} (h : n.Regular) (hn : n.isPresent) :
    OnlyDepthStops fun depth => n.text? depth :=
  onlyDepthStops_of_obstacle fun _ _ => h.textObstacle hn

theorem Node.Regular.onlyDepthStops_outline {n : Node} (h : n.Regular) :
    OnlyDepthStops fun depth => n.outline? depth :=
  onlyDepthStops_of_obstacle fun _ _ => h.outlineObstacle

theorem Value.Regular.onlyDepthStops_inspect {v : Value} (h : v.Regular) :
    OnlyDepthStops fun depth => v.inspect? depth :=
  onlyDepthStops_of_obstacle fun _ _ => h.obstacle

/-- **Nothing but the depth stops a text.**  Every text is read, with complaints or without, at
every depth greater than the number of its tokens.  Only the depth can stop what is read from
being written, from being outlined and from being evaluated where nothing is bound; and what comes
of it is no value, or a value other than a `return` on its way out, which only the depth can stop
from being shown. -/
theorem parsed_never_fails (text : String) :
    (∀ depth, (tokens text).length < depth → (parse depth text).isSome) ∧
    ∀ depth p, parse depth text = some p →
      (OnlyDepthStops fun d => p.program.text? d) ∧
      (OnlyDepthStops fun d => p.program.outline? d) ∧
      ∀ d, match Evaluation.eval d p.program 0 (Store.empty.addScope none) with
        | .error why _ => why = .tooDeep
        | .ok o _ => o.any Value.isReturned = false ∧
            ∀ v ∈ o, OnlyDepthStops fun d => v.inspect? d := by
  refine ⟨fun depth => isSome_parse, fun depth p hp => ?_⟩
  obtain ⟨ns, hprogram, hregular⟩ := regular_of_parse hp
  refine ⟨hregular.onlyDepthStops_text (by rw [hprogram]; rfl),
    hregular.onlyDepthStops_outline, fun d => ?_⟩
  have hs : (Store.empty.addScope none).Binds Value.Regular := Store.binds_empty.addScope none
  have hensures := Evaluation.regularly_eval d p.program 0 hregular _ hs
  cases hr : Evaluation.eval d p.program 0 (Store.empty.addScope none) with
  | error why t =>
    rw [hr] at hensures
    exact hensures
  | ok o t =>
    rw [hr] at hensures
    -- nothing is bound, so no signal can be reached, and a `return` ends at the program
    have hplain : (Store.empty.addScope none).Plain fun _ => True :=
      (Store.plain_empty fun _ => trivial).addScope fun _ _ => trivial
    have hagree := follows_eval d p.program 0 trivial _ hplain
    rw [hprogram] at hagree hr
    refine ⟨hagree.not_returned (Throwing.catchesReturn_program d ns 0) hr, fun v hv => ?_⟩
    exact (hensures.2 v hv).onlyDepthStops_inspect

/-- A `let` without its value, and a call of an array that breaks off. -/
theorem parsed_never_fails_let :
    ∃ p, parse 9 "let x = ; [1](" = some p ∧ p.complaints ≠ [] ∧
      (OnlyDepthStops fun d => p.program.text? d) ∧
      (OnlyDepthStops fun d => p.program.outline? d) ∧
      ∀ d, match Evaluation.eval d p.program 0 (Store.empty.addScope none) with
        | .error why _ => why = .tooDeep
        | .ok o _ => o.any Value.isReturned = false ∧
            ∀ v ∈ o, OnlyDepthStops fun d => v.inspect? d := by
  have hsome := (parsed_never_fails "let x = ; [1](").1 9 (by decide +kernel)
  obtain ⟨p, hp⟩ := Option.isSome_iff_exists.mp hsome
  have hcomplaints : (parse 9 "let x = ; [1](").map (fun p => p.complaints.isEmpty) =
      some false := by
    decide +kernel
  refine ⟨p, hp, fun hnil => ?_, (parsed_never_fails "let x = ; [1](").2 9 p hp⟩
  rw [hp, Option.map_some, hnil] at hcomplaints
  cases hcomplaints

end Monkey
