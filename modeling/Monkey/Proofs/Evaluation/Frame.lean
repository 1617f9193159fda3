import Monkey.Evaluation.Eval

/-!
# What an evaluation may write

A tree writes only to the scope in which it is evaluated, and there only the names of its own
`let`s.  A function literal binds nothing where it stands, and a call works on a scope that
was not there before.  So whatever a program does, and however it ends, all the other scopes
keep their bindings, and no scope is ever put around another one.

The relation between the store before and the store behind is reflexive and transitive, so
the constructs are taken one by one; only the call needs more, as its body runs in another
scope.

## Main definitions

* `Node.targets` — the names that the `let`s of a tree bind where it is evaluated.
* `Scope.Extends` — a scope with more bindings.
* `Store.Frame`, `Store.Untouched` — what may change between two stores.
* `Evaluation.after`, `Evaluation.Writes` — the store behind an evaluation, and evaluations
  that keep to a frame.

## Main results

* `Evaluation.writes_eval` — a tree keeps to its scope and its targets.
* `frame_eval_and_untouched_apply` — the same with what it means for a call.
-/

namespace Monkey

/-! ### Targets -/

namespace Node

/-- The name that a node stands for where it is bound. -/
def boundName? (n : Node) : Option String :=
  match n.content? with
  | some (.text name) => some name
  | _ => none

mutual

/-- The names that the `let`s of a tree bind in the scope where it is evaluated.  Those inside
of a function literal are not among them. -/
def targets : Node → List String
  | missing | bare _ | identifier _ _ | integer _ _ | boolean _ _ | string _ _
  | function _ _ _ => []
  | program statements | block _ statements => targetsAll statements
  | letStatement _ name value => name.boundName?.toList ++ targets value
  | returnStatement _ value => targets value
  | expressionStatement _ expression => targets expression
  | prefixed _ _ right => targets right
  | infixed _ left _ right => targets left ++ targets right
  | conditional _ condition consequence alternative =>
    targets condition ++ (targets consequence ++ targets alternative)
  | call _ callee arguments => targets callee ++ targetsAll arguments
  | array _ elements => targetsAll elements
  | hash _ pairs => targetsPairs pairs
  | index _ left subscript => targets left ++ targets subscript

/-- The targets of some trees. -/
def targetsAll : List Node → List String
  | [] => []
  | n :: ns => targets n ++ targetsAll ns

/-- The targets of the pairs of a hash. -/
def targetsPairs : List (Node × Node) → List String
  | [] => []
  | (key, value) :: pairs => targets key ++ (targets value ++ targetsPairs pairs)

end

end Node

/-! ### Scopes -/

/-- A later state of a scope: the scope around it is the same, no name is lost, and only names
of which `P` holds may have come in or may have changed their values. -/
structure Scope.Extends (P : String → Prop) (old new : Scope) : Prop where
  outer : new.outer = old.outer
  kept : ∀ name, (old.bindings.lookup name).isSome → (new.bindings.lookup name).isSome
  others : ∀ name, ¬ P name → new.bindings.lookup name = old.bindings.lookup name

namespace Scope

variable {P : String → Prop} {s t u : Scope}

theorem Extends.refl (s : Scope) : s.Extends P s :=
  ⟨rfl, fun _ h => h, fun _ _ => rfl⟩

theorem Extends.trans (hst : s.Extends P t) (htu : t.Extends P u) : s.Extends P u where
  outer := htu.outer.trans hst.outer
  kept name h := htu.kept name (hst.kept name h)
  others name h := (htu.others name h).trans (hst.others name h)

/-- Looking a name up, one binding at a time. -/
theorem lookup_cons (b : String × Value) (bs : List (String × Value)) (name : String) :
    (b :: bs).lookup name = if name = b.1 then some b.2 else bs.lookup name := by
  rw [List.lookup_cons]
  by_cases h : name = b.1
  · rw [if_pos h, beq_iff_eq.mpr h]
  · rw [if_neg h, beq_eq_false_iff_ne.mpr h]

/-- The bindings behind a new one: the name has the new value, and all others have theirs. -/
theorem lookup_put (bs : List (String × Value)) (name other : String) (v : Value) :
    (put bs name v).lookup other = if other = name then some v else bs.lookup other := by
  induction bs with
  | nil => rw [put, lookup_cons]
  | cons b bs ih =>
    rw [put]
    by_cases hb : b.1 = name
    · -- the binding is replaced where it stands
      rw [if_pos hb, lookup_cons, lookup_cons, hb]
      by_cases h : other = name <;> simp [h]
    · rw [if_neg hb, lookup_cons, lookup_cons, ih]
      by_cases h : other = b.1
      · have hne : other ≠ name := fun heq => hb (h ▸ heq)
        simp [h, hb]
      · simp [h]

theorem extends_set {name : String} (h : P name) (s : Scope) (v : Value) :
    s.Extends P (s.set name v) where
  outer := rfl
  kept other hother := by
    rw [set, lookup_put]
    by_cases heq : other = name
    · rw [if_pos heq]
      rfl
    · rw [if_neg heq]
      exact hother
  others other hother := by
    have hne : other ≠ name := fun heq => hother (heq ▸ h)
    rw [set, lookup_put, if_neg hne]

end Scope

/-! ### Stores -/

namespace Store

/-- What may have changed when something was evaluated in a scope: the scopes that were there
are as they were, except that one, which may bind more names of which `P` holds. -/
def Frame (scope : ScopeId) (P : String → Prop) (s t : Store) : Prop :=
  ∀ (i : ScopeId) (old : Scope), s.scopes[i]? = some old →
    ∃ new, t.scopes[i]? = some new ∧ (i = scope → old.Extends P new) ∧ (i ≠ scope → new = old)

/-- All scopes that were there are as they were. -/
def Untouched (s t : Store) : Prop :=
  ∀ (i : ScopeId) (old : Scope), s.scopes[i]? = some old → t.scopes[i]? = some old

variable {scope : ScopeId} {P : String → Prop} {s t u : Store}

theorem Untouched.frame (h : s.Untouched t) : s.Frame scope P t := by
  intro i old hi
  exact ⟨old, h i old hi, fun _ => .refl old, fun _ => rfl⟩

theorem Frame.refl (s : Store) : s.Frame scope P s :=
  Untouched.frame fun _ _ hi => hi

theorem Frame.trans (hst : s.Frame scope P t) (htu : t.Frame scope P u) :
    s.Frame scope P u := by
  intro i old hi
  obtain ⟨mid, hmid, hown, hother⟩ := hst i old hi
  obtain ⟨new, hnew, hown', hother'⟩ := htu i mid hmid
  refine ⟨new, hnew, fun heq => (hown heq).trans (hown' heq), fun hne => ?_⟩
  rw [hother' hne, hother hne]

/-- A scope that was not there yet is none of those that were. -/
theorem Frame.untouched (h : s.Frame s.size P t) : s.Untouched t := by
  intro i old hi
  obtain ⟨new, hnew, -, hother⟩ := h i old hi
  have hlt : i < s.scopes.size := (Array.getElem?_eq_some_iff.mp hi).1
  rw [hnew, hother (Nat.ne_of_lt hlt)]

theorem untouched_addScope (s : Store) (outer : Option ScopeId) :
    s.Untouched (s.addScope outer) := by
  intro i old hi
  have hlt : i < s.scopes.size := (Array.getElem?_eq_some_iff.mp hi).1
  simp only [addScope, Array.getElem?_push, Nat.ne_of_lt hlt, if_false]
  exact hi

theorem frame_bind {name : String} (h : P name) (s : Store) (scope : ScopeId) (v : Value) :
    s.Frame scope P (s.bind scope name v) := by
  intro i old hi
  by_cases heq : scope = i
  · refine ⟨old.set name v, ?_, fun _ => old.extends_set h v, fun hne => absurd heq.symm hne⟩
    simp only [bind, Array.getElem?_modify, if_pos heq, hi, Option.map_some]
  · refine ⟨old, ?_, fun _ => .refl old, fun _ => rfl⟩
    simp only [bind, Array.getElem?_modify, if_neg heq, hi]

end Store

/-! ### Evaluations -/

namespace Evaluation

variable {α β : Type}

/-- The store behind an evaluation, whether it gives a result or stops. -/
def after (e : Evaluation α) (s : Store) : Store :=
  match e s with
  | .ok _ t => t
  | .error _ t => t

/-- The store behind an evaluation differs from the one before as a frame allows. -/
def Writes (scope : ScopeId) (P : String → Prop) (e : Evaluation α) : Prop :=
  ∀ s : Store, s.Frame scope P (e.after s)

variable {scope : ScopeId} {P : String → Prop}

/-- The store behind two parts in a row. -/
theorem after_bind (e : Evaluation α) (k : α → Evaluation β) (s : Store) :
    (e >>= k).after s = match e s with
      | .ok a t => (k a).after t
      | .error _ t => t := by
  unfold after
  simp only [Bind.bind, EStateM.bind]
  cases e s <;> rfl

theorem writes_pure (a : α) : Writes scope P (pure a) :=
  fun s => .refl s

theorem writes_throw (why : Stop) : Writes scope P (throw why : Evaluation α) :=
  fun s => .refl s

theorem Writes.bind {e : Evaluation α} {k : α → Evaluation β} (he : Writes scope P e)
    (hk : ∀ a, Writes scope P (k a)) : Writes scope P (e >>= k) := by
  intro s
  have hs := he s
  rw [after_bind]
  unfold after at hs
  cases h : e s with
  | ok a t =>
    rw [h] at hs
    exact hs.trans (hk a t)
  | error why t =>
    rw [h] at hs
    exact hs

theorem Writes.map {e : Evaluation α} (f : α → β) (he : Writes scope P e) :
    Writes scope P (f <$> e) := by
  rw [← bind_pure_comp]
  exact he.bind fun _ => writes_pure _

/-- What leaves the scopes alone keeps to every frame. -/
theorem writes_modify {f : Store → Store} (hf : ∀ s, (f s).scopes = s.scopes) :
    Writes scope P (modify f) := by
  intro s
  refine Store.Untouched.frame fun i old hi => ?_
  change (f s).scopes[i]? = some old
  rw [hf s]
  exact hi

/-! ### Objects, printing and names -/

theorem writes_issue : Writes scope P issue := by
  intro s
  exact Store.Untouched.frame fun _ _ hi => hi

theorem writes_raise (fault : Fault) : Writes scope P (raise fault) :=
  writes_issue.bind fun _ => writes_pure _

theorem writes_settle (r : Except Fault Value) : Writes scope P (settle r) := by
  cases r with
  | ok v => exact writes_pure v
  | error fault => exact writes_raise fault

theorem writes_printLine (depth : Nat) (v : Value) : Writes scope P (printLine depth v) := by
  unfold printLine
  split
  · exact writes_modify fun _ => rfl
  · exact writes_throw _

theorem writes_bindName {name : Node} (h : ∀ text ∈ name.boundName?, P text) (v : Value) :
    Writes scope P (bindName scope name v) := by
  unfold bindName
  unfold Node.boundName? at h
  cases hc : name.content? with
  | none => exact writes_throw _
  | some content =>
    rw [hc] at h
    cases content with
    | text text =>
      intro s
      exact Store.frame_bind (h text rfl) s scope v
    | integer => exact writes_pure _
    | boolean => exact writes_pure _
    | node kind => exact writes_pure _

theorem writes_bindNames {bs : List (Node × Value)}
    (h : ∀ b ∈ bs, ∀ text ∈ b.1.boundName?, P text) : Writes scope P (bindNames scope bs) := by
  induction bs with
  | nil => exact writes_pure _
  | cons b bs ih =>
    obtain ⟨hb, hbs⟩ := List.forall_mem_cons.mp h
    exact (writes_bindName hb b.2).bind fun _ => ih hbs

/-! ### Builtins -/

theorem writes_onOne {f : Value → Evaluation Value} (hf : ∀ v, Writes scope P (f v))
    (vs : List Value) : Writes scope P (Builtin.onOne f vs) := by
  unfold Builtin.onOne
  split
  · exact hf _
  · exact writes_raise _

theorem writes_onArray (b : Builtin) {f : List Value → Evaluation Value}
    (hf : ∀ vs, Writes scope P (f vs)) (v : Value) : Writes scope P (Builtin.onArray b f v) := by
  unfold Builtin.onArray
  split
  · exact hf _
  · exact writes_raise _

theorem writes_printAll (depth : Nat) (vs : List Value) :
    Writes scope P (Builtin.printAll depth vs) := by
  induction vs with
  | nil => exact writes_pure _
  | cons v vs ih => exact (writes_printLine depth v).bind fun _ => ih

theorem writes_applyBuiltin (depth : Nat) (b : Builtin) (vs : List Value) :
    Writes scope P (b.apply depth vs) := by
  cases b with
  | first => exact writes_onOne (writes_onArray _ fun _ => writes_pure _) vs
  | last => exact writes_onOne (writes_onArray _ fun _ => writes_pure _) vs
  | len =>
    refine writes_onOne (fun v => ?_) vs
    unfold Builtin.length
    split
    · exact writes_pure _
    · exact writes_pure _
    · exact writes_raise _
  | push =>
    change Writes scope P (Builtin.pushOnto vs)
    unfold Builtin.pushOnto
    split
    · exact writes_issue.bind fun _ => writes_pure _
    · exact writes_raise _
    · exact writes_raise _
  | puts => exact writes_printAll depth vs
  | rest =>
    refine writes_onOne (writes_onArray _ fun elements => ?_) vs
    cases elements with
    | nil => exact writes_pure _
    | cons v vs => exact writes_issue.bind fun _ => writes_pure _

/-! ### Constructs -/

section Constructs

variable {eval : Evaluator}

/-- Every tree keeps to the scope in which it is evaluated and to its targets. -/
def WritesAll (eval : Evaluator) : Prop :=
  ∀ (n : Node) (scope : ScopeId) (P : String → Prop), (∀ name ∈ n.targets, P name) →
    Writes scope P (eval n scope)

theorem writes_value (h : WritesAll eval) {n : Node} (hn : ∀ name ∈ n.targets, P name) :
    Writes scope P (value eval n scope) :=
  (h n scope P hn).bind fun _ => writes_pure _

theorem writes_operand (h : WritesAll eval) {n : Node} {k : Value → Evaluation (Option Value)}
    (hn : ∀ name ∈ n.targets, P name) (hk : ∀ v, Writes scope P (k v)) :
    Writes scope P (operand eval n scope k) := by
  refine (writes_value h hn).bind fun v => ?_
  split
  · exact writes_pure _
  · exact hk v

theorem writes_values (h : WritesAll eval) {ns : List Node}
    (hns : ∀ name ∈ Node.targetsAll ns, P name) : Writes scope P (values eval scope ns) := by
  induction ns with
  | nil => exact writes_pure _
  | cons n ns ih =>
    obtain ⟨hn, hns⟩ := List.forall_mem_append.mp hns
    refine (writes_value h hn).bind fun v => ?_
    split
    · exact writes_pure _
    · refine (ih hns).bind fun r => ?_
      cases r with
      | error signal => exact writes_pure _
      | ok vs => exact writes_pure _

theorem writes_entries (h : WritesAll eval) {pairs : List (Node × Node)}
    (hpairs : ∀ name ∈ Node.targetsPairs pairs, P name) (done : List (Value × Value)) :
    Writes scope P (entries eval scope pairs done) := by
  induction pairs generalizing done with
  | nil => exact writes_pure _
  | cons pair pairs ih =>
    obtain ⟨hkey, hrest⟩ := List.forall_mem_append.mp hpairs
    obtain ⟨hval, hpairs⟩ := List.forall_mem_append.mp hrest
    refine (writes_value h hkey).bind fun k => ?_
    split
    · exact writes_pure _
    · split
      · exact (writes_raise _).bind fun _ => writes_pure _
      · refine (writes_value h hval).bind fun v => ?_
        split
        · exact writes_pure _
        · exact ih hpairs _

/-- A call leaves all scopes alone that were there: a function works on a new one. -/
theorem untouched_apply (h : WritesAll eval) (depth : Nat) (callee : Value)
    (arguments : List Value) (s : Store) :
    s.Untouched ((apply eval depth callee arguments).after s) := by
  -- it is enough to look at the frame of the scope that comes next
  refine Store.Frame.untouched (P := fun _ => True) ?_
  cases callee with
  | function id parameters body closure =>
    -- the names are bound and the body runs in the scope that has just been added
    have hrun : apply eval depth (.function id parameters body closure) arguments s =
        (bindNames s.size (parameters.zip arguments) >>= fun _ =>
          value eval body s.size >>= fun v => pure v.unwrapped) (s.addScope (some closure)) := by
      change ((bindNames s.size (parameters.zip arguments) >>= fun _ => pure s.size) >>=
        fun scope => value eval body scope >>= fun v => pure v.unwrapped) _ = _
      simp only [bind_assoc, pure_bind]
    have hbody : Writes s.size (fun _ => True)
        (value eval body s.size >>= fun v => pure v.unwrapped) :=
      (writes_value h fun _ _ => trivial).bind fun _ => writes_pure _
    have hnames : Writes s.size (fun _ => True) (bindNames s.size (parameters.zip arguments)) :=
      writes_bindNames fun _ _ _ _ => trivial
    have hcall := hnames.bind fun _ => hbody
    rw [after, hrun]
    exact (s.untouched_addScope _).frame.trans (hcall (s.addScope (some closure)))
  | builtin b => exact writes_applyBuiltin depth b arguments s
  | _ => exact writes_raise _ s

theorem writes_apply (h : WritesAll eval) (depth : Nat) (callee : Value)
    (arguments : List Value) : Writes scope P (apply eval depth callee arguments) :=
  fun s => (untouched_apply h depth callee arguments s).frame

theorem writes_runProgram (h : WritesAll eval) {ns : List Node}
    (hns : ∀ name ∈ Node.targetsAll ns, P name) (last : Option Value) :
    Writes scope P (runProgram eval scope ns last) := by
  induction ns generalizing last with
  | nil => exact writes_pure _
  | cons n ns ih =>
    obtain ⟨hn, hns⟩ := List.forall_mem_append.mp hns
    refine (h n scope P hn).bind fun result => ?_
    split
    · exact writes_pure _
    · exact writes_pure _
    · exact ih hns result

theorem writes_runBlock (h : WritesAll eval) {ns : List Node}
    (hns : ∀ name ∈ Node.targetsAll ns, P name) (last : Option Value) :
    Writes scope P (runBlock eval scope ns last) := by
  induction ns generalizing last with
  | nil => exact writes_pure _
  | cons n ns ih =>
    obtain ⟨hn, hns⟩ := List.forall_mem_append.mp hns
    refine (h n scope P hn).bind fun result => ?_
    split
    · exact writes_pure _
    · exact ih hns result

theorem writes_identifier (name : String) : Writes scope P (identifier name scope) := by
  have hget : Writes scope P (get : Evaluation Store) := fun s => .refl s
  refine hget.bind fun s => ?_
  split
  · exact writes_pure _
  · split
    · exact writes_pure _
    · exact writes_raise _

/-- **One construct**: it keeps to its scope and its targets if its parts do. -/
theorem writes_evalNode (h : WritesAll eval) (depth : Nat) :
    WritesAll (evalNode eval depth) := by
  intro n scope P hn
  cases n with
  | missing => exact writes_pure _
  | bare => exact writes_throw _
  | program statements => exact writes_runProgram h hn none
  | block _ statements => exact writes_runBlock h hn none
  | expressionStatement _ expression => exact h expression scope P hn
  | letStatement _ name val =>
    obtain ⟨hname, hval⟩ := List.forall_mem_append.mp hn
    refine writes_operand h hval fun v => ?_
    have hbind : Writes scope P (bindName scope name v) :=
      writes_bindName (fun text htext => hname text (Option.mem_toList.mpr htext)) v
    by_cases hp : name.isPresent = true
    · simp only [if_pos hp]
      exact hbind.bind fun _ => writes_pure _
    · simp only [if_neg hp]
      exact writes_pure _
  | returnStatement _ val =>
    exact writes_operand h hn fun v => writes_issue.bind fun _ => writes_pure _
  | identifier _ name => exact (writes_identifier name).map _
  | integer => exact writes_pure _
  | boolean => exact writes_pure _
  | string => exact writes_pure _
  | prefixed _ operator right => exact writes_operand h hn fun r => (writes_settle _).map _
  | infixed _ left operator right =>
    obtain ⟨hleft, hright⟩ := List.forall_mem_append.mp hn
    refine writes_operand h hleft fun l => ?_
    exact writes_operand h hright fun r => (writes_settle _).map _
  | conditional _ condition consequence alternative =>
    obtain ⟨hcondition, hrest⟩ := List.forall_mem_append.mp hn
    obtain ⟨hconsequence, halternative⟩ := List.forall_mem_append.mp hrest
    refine writes_operand h hcondition fun c => ?_
    split
    · exact h consequence scope P hconsequence
    · split
      · exact writes_pure _
      · exact h alternative scope P halternative
  | function token parameters body => exact writes_issue.bind fun _ => writes_pure _
  | call _ callee arguments =>
    obtain ⟨hcallee, harguments⟩ := List.forall_mem_append.mp hn
    refine writes_operand h hcallee fun f => (writes_values h harguments).bind fun r => ?_
    cases r with
    | error signal => exact writes_pure _
    | ok vs => exact (writes_apply h depth f vs).map _
  | array _ elements =>
    refine (writes_values h hn).bind fun r => ?_
    cases r with
    | error signal => exact writes_pure _
    | ok vs => exact writes_issue.bind fun _ => writes_pure _
  | hash _ pairs =>
    refine (writes_entries h hn []).bind fun r => ?_
    cases r with
    | error signal => exact writes_pure _
    | ok es => exact writes_issue.bind fun _ => writes_pure _
  | index _ left subscript =>
    obtain ⟨hleft, hsubscript⟩ := List.forall_mem_append.mp hn
    refine writes_operand h hleft fun l => ?_
    exact writes_operand h hsubscript fun i => (writes_settle _).map _

end Constructs

/-- A tree keeps to the scope in which it is evaluated and to its targets, at every depth. -/
theorem writes_eval (depth : Nat) : WritesAll (eval depth) := by
  induction depth with
  | zero => exact fun _ _ _ _ => writes_throw _
  | succ depth ih => exact writes_evalNode ih depth

end Evaluation

/-- **Evaluation writes to its own scope only**, and there only the names of the `let`s that are
outside of function literals; it takes no binding away, and it puts no scope around another
one.  **A call writes to no scope that was there**, not even to the one in which the function
was made.  Both hold also where the evaluation stops. -/
theorem frame_eval_and_untouched_apply :
    (∀ (depth : Nat) (n : Node) (scope : ScopeId) (s : Store),
      s.Frame scope (· ∈ n.targets) ((Evaluation.eval depth n scope).after s)) ∧
    ∀ (depth depth' : Nat) (callee : Value) (arguments : List Value) (s : Store),
      s.Untouched
        ((Evaluation.apply (Evaluation.eval depth) depth' callee arguments).after s) := by
  constructor
  · intro depth n scope s
    exact Evaluation.writes_eval depth n scope _ (fun _ h => h) s
  · intro depth depth' callee arguments s
    exact Evaluation.untouched_apply (Evaluation.writes_eval depth) depth' callee arguments s

end Monkey
