import Monkey.Proofs.Evaluation.Closed

/-!
# Names that are not mentioned do not matter

A tree is evaluated in a scope, and once more with another name bound there.  If the name stands
neither in the tree nor in any function that can be reached from the scope, nobody asks for it:
what comes of the tree is the same, and so are all bindings of other names behind it.  It may be
the name of a builtin, and its value may be anything at all.

Both runs give out the same identities and make the same scopes.  So a value is linked to itself
only, and the two stores are one and the same when the name is left out.

## Main definitions

* `Store.Unmentioned` — no function that can be reached mentions a name.
* `Store.without` — a store without the bindings of a name.
* `Mirror.without` — two stores that are the same without a name.

## Main results

* `Store.lookup_without` — other names are found where they were.
* `unmentioned_name_does_not_matter` — evaluation with one more name.
-/

namespace Monkey

/-! ### Changes at one place -/

/-- Where one element is changed, one element of the image is. -/
theorem map_modify {α β : Type} {f : α → α} {f' : β → β} {g : α → β}
    (h : ∀ a, g (f a) = f' (g a)) (as : Array α) (i : Nat) :
    (as.modify i f).map g = (as.map g).modify i f' := by
  refine Array.ext (by simp only [Array.size_map, Array.size_modify]) fun j _ _ => ?_
  simp only [Array.getElem_map, Array.getElem_modify]
  split
  · exact h _
  · rfl

theorem modify_id {α : Type} (as : Array α) (i : Nat) : as.modify i id = as :=
  Array.ext Array.size_modify fun j _ _ => by simp only [Array.getElem_modify, id, ite_self]

/-! ### Stores without a name -/

/-- A scope without the binding of a name. -/
def Scope.without (z : String) (c : Scope) : Scope :=
  { c with bindings := c.bindings.filter fun b => b.1 ≠ z }

section

variable {z name : String} {v : Value}

theorem Scope.filter_put_self (bs : List (String × Value)) :
    ((put bs z v).filter fun b => b.1 ≠ z) = bs.filter fun b => b.1 ≠ z := by
  induction bs with
  | nil => simp [put]
  | cons b bs ih =>
    rw [put]
    split
    · next h => simp [h]
    · next h =>
      simp only [ne_eq, h, not_false_eq_true, decide_true, List.filter_cons_of_pos]
      exact congrArg (b :: ·) ih

theorem Scope.filter_put_of_ne (h : name ≠ z) (bs : List (String × Value)) :
    ((put bs name v).filter fun b => b.1 ≠ z) = put (bs.filter fun b => b.1 ≠ z) name v := by
  induction bs with
  | nil => simp [put, h]
  | cons b bs ih =>
    rw [put]
    by_cases hb : b.1 = name
    · have hz : b.1 ≠ z := hb ▸ h
      simp [hb, h, put]
    · rw [if_neg hb, List.filter_cons, List.filter_cons, ih]
      split
      · rw [put, if_neg hb]
      · rfl

theorem Scope.lookup_filter (h : name ≠ z) (bs : List (String × Value)) :
    (bs.filter fun b => b.1 ≠ z).lookup name = bs.lookup name := by
  induction bs with
  | nil => rfl
  | cons b bs ih =>
    obtain ⟨key, w⟩ := b
    rw [List.lookup_cons]
    by_cases hz : key = z
    · subst hz
      have hne : (name == key) = false := beq_eq_false_iff_ne.mpr h
      simp only [List.filter_cons, ne_eq, not_true_eq_false, decide_false, Bool.false_eq_true,
        if_false, hne]
      exact ih
    · simp only [List.filter_cons, ne_eq, hz, not_false_eq_true, decide_true, if_true,
        List.lookup_cons]
      rw [ih]

end

namespace Store

/-- A store without the bindings of a name. -/
def without (z : String) (s : Store) : Store :=
  { s with scopes := s.scopes.map (Scope.without z) }

variable {z : String} {s t : Store}

theorem size_without : (s.without z).size = s.size := Array.size_map

theorem addScope_without (outer : Option ScopeId) :
    (s.addScope outer).without z = (s.without z).addScope outer := by
  simp only [addScope, without, Array.map_push]
  rfl

/-- A binding of the name itself is left out again. -/
theorem bind_without_self (scope : ScopeId) (v : Value) :
    (s.bind scope z v).without z = s.without z := by
  have hset : ∀ c : Scope, (c.set z v).without z = id (c.without z) := fun c => by
    simp only [Scope.set, Scope.without, Scope.filter_put_self, id]
  have hscopes : (s.scopes.modify scope (·.set z v)).map (Scope.without z) =
      s.scopes.map (Scope.without z) := (map_modify hset _ _).trans (modify_id _ _)
  simp only [bind, without, hscopes]

/-- Other names are bound as ever. -/
theorem bind_without_of_ne {name : String} (h : name ≠ z) (scope : ScopeId) (v : Value) :
    (s.bind scope name v).without z = (s.without z).bind scope name v := by
  have hset : ∀ c : Scope, (c.set name v).without z = (c.without z).set name v := fun c => by
    simp only [Scope.set, Scope.without, Scope.filter_put_of_ne h]
  have hscopes : (s.scopes.modify scope (·.set name v)).map (Scope.without z) =
      (s.scopes.map (Scope.without z)).modify scope (·.set name v) := map_modify hset _ _
  simp only [bind, without, hscopes]

/-- Other names are found where they were. -/
theorem lookup_without {name : String} (h : name ≠ z) (scope : ScopeId) :
    (s.without z).lookup scope name = s.lookup scope name := by
  induction scope using Nat.strongRecOn with
  | ind scope ih =>
    rw [lookup, lookup]
    simp only [without, Array.getElem?_map]
    cases s.scopes[scope]? with
    | none => rfl
    | some c =>
      simp only [Option.map_some, Scope.without, Scope.lookup_filter h]
      cases c.bindings.lookup name with
      | some v => rfl
      | none =>
        cases c.outer with
        | none => rfl
        | some outer =>
          dsimp only
          split
          · next hlt => exact ih outer hlt
          · rfl

theorem bindings_without (scope : ScopeId) :
    (s.without z).bindings scope = (s.bindings scope).filter fun b => b.1 ≠ z := by
  simp only [bindings, without, Array.getElem?_map]
  cases s.scopes[scope]? with
  | none => rfl
  | some c => rfl

end Store

/-! ### Names that are not mentioned -/

/-- No function that can be reached from a scope mentions a name. -/
def Store.Unmentioned (s : Store) (scope : ScopeId) (z : String) : Prop :=
  ∀ id parameters body closure,
    s.ReachesValue scope (.function id parameters body closure) →
      (∀ p ∈ parameters, ¬ p.Mentions z) ∧ ¬ body.Mentions z

/-- All integers and builtins, and all names but one. -/
def Vocabulary.except (z : String) : Vocabulary where
  integer _ := True
  name x := x ≠ z
  builtin _ := True
  wrapped _ := trivial
  length _ _ := trivial
  named _ _ := trivial

theorem Node.within_except_iff {n : Node} {z : String} :
    n.Within (.except z) ↔ ¬ n.Mentions z := by
  constructor
  · rintro h ⟨token, hp⟩
    exact h.name hp rfl
  · intro h
    refine ⟨fun _ => trivial, ?_⟩
    rintro token name hp rfl
    exact h ⟨token, hp⟩

/-- A closed store whose vocabulary has not the name does not mention it. -/
theorem Store.Closed.unmentioned {s : Store} {z : String} (hs : s.Closed (.except z))
    (scope : ScopeId) : s.Unmentioned scope z := by
  intro id parameters body closure h
  cases hs.reaches h with
  | function _ parametersWithin bodyWithin _ =>
    exact ⟨fun p hp => Node.within_except_iff.mp (parametersWithin p hp),
      Node.within_except_iff.mp bodyWithin⟩

/-- The scopes of a set are linked to themselves, and so are all identities. -/
def Links.within (L : ScopeId → Prop) : Links where
  identity i j := i = j
  scope a b := a = b ∧ L a
  identity_iff := by
    rintro i _ i' _ rfl rfl
    exact Iff.rfl

theorem Links.eq_of_like {V : Vocabulary} {L : ScopeId → Prop} {v w : Value}
    (h : v.Like V (.within L) w) : w = v := by
  have hid : ∀ i j, (Links.within L).identity i j → j = i := fun _ _ hij => Eq.symm hij
  have hscope : ∀ a b, (Links.within L).scope a b → b = a := fun _ _ hab => hab.1.symm
  exact h.eq hid hscope

/-- What is reached without a signal mentions the name nowhere. -/
theorem Store.like_of_reachesValue {s : Store} {start : ScopeId} {z : String}
    {L : ScopeId → Prop} (hfree : s.SignalFree start) (hz : s.Unmentioned start z)
    (hL : ∀ i, s.ReachesScope start i → L i) :
    ∀ v, s.ReachesValue start v → v.Like (.except z) (.within L) v
  | .integer n, _ => .integer trivial
  | .boolean b, _ => .boolean b
  | .null, _ => .null
  | .string text, _ => .string text
  | .array id elements, h => by
    refine .array rfl (List.forall₂_same.mpr fun v hv => ?_)
    exact like_of_reachesValue hfree hz hL v (.element h hv)
  | .hash id entries, h => by
    refine .hash rfl (List.forall₂_same.mpr fun e he => ?_)
    exact .mk (like_of_reachesValue hfree hz hL e.1 (.key h he))
      (like_of_reachesValue hfree hz hL e.2 (.entry h he))
  | .function id parameters body scope, h => by
    obtain ⟨hparameters, hbody⟩ := hz _ _ _ _ h
    have hwithin : ∀ p ∈ parameters, p.Within (.except z) := fun p hp =>
      Node.within_except_iff.mpr (hparameters p hp)
    exact .function rfl hwithin (Node.within_except_iff.mpr hbody) ⟨rfl, hL scope (.closure h)⟩
  | .builtin b, _ => .builtin trivial
  | .returned id v, h => nomatch hfree _ h
  | .error id fault, h => nomatch hfree _ h
termination_by v => sizeOf v
decreasing_by
  · have := List.sizeOf_lt_of_mem hv
    simp only [Value.array.sizeOf_spec]
    omega
  all_goals
    have := List.sizeOf_lt_of_mem he
    obtain ⟨k, v⟩ := e
    simp only [Value.hash.sizeOf_spec, Prod.mk.sizeOf_spec] at this ⊢
    omega

/-- **Two stores that are the same without a name mirror each other**, as long as nobody mentions
the name.  The scopes to come are of the set from some number on. -/
def Mirror.without (z : String) (L : ScopeId → Prop) (least : ScopeId)
    (hL : ∀ i, least ≤ i → L i) : Mirror (.except z) where
  Related R s s' := R = .within L ∧ s.without z = s'.without z ∧
    s.Within (.except z) (.within L) ∧ least ≤ s.size
  lookup := by
    rintro R s s' a _ name ⟨rfl, heq, hs, -⟩ ⟨rfl, ha⟩ hname
    have hsame : s'.lookup a name = s.lookup a name := by
      rw [← Store.lookup_without hname, ← heq, Store.lookup_without hname]
    rw [hsame]
    cases h : s.lookup a name with
    | none => exact .none
    | some v => exact .some (hs.lookup ⟨rfl, ha⟩ h)
  bind := by
    rintro R s s' a _ v w name ⟨rfl, heq, hs, hsize⟩ ⟨rfl, ha⟩ hv
    obtain rfl := Links.eq_of_like hv
    refine ⟨rfl, ?_, hs.bind a name hv, (s.size_bind a name w).symm ▸ hsize⟩
    by_cases hname : name = z
    · subst hname
      rw [Store.bind_without_self, Store.bind_without_self, heq]
    · rw [Store.bind_without_of_ne hname, Store.bind_without_of_ne hname, heq]
  addScope := by
    rintro R s s' a _ ⟨rfl, heq, hs, hsize⟩ ⟨rfl, ha⟩
    have hsizes : s.size = s'.size := by
      rw [← Store.size_without, heq, Store.size_without]
    refine ⟨_, le_rfl, ⟨hsizes, hL _ hsize⟩, rfl, ?_, ?_, ?_⟩
    · rw [Store.addScope_without, Store.addScope_without, heq]
    · exact hs.addScope le_rfl (fun _ hi _ => hi) fun o ho => ⟨rfl, Option.some.inj ho ▸ ha⟩
    · rw [s.size_addScope]
      exact Nat.le_succ_of_le hsize
  issue := by
    rintro R s s' ⟨rfl, heq, hs, hsize⟩
    have hnext : s.next = s'.next := by
      change (s.without z).next = (s'.without z).next
      rw [heq]
    refine ⟨_, le_rfl, hnext, rfl, ?_, hs.grow le_rfl rfl fun _ hi => hi, hsize⟩
    exact congrArg Store.issue heq
  print := by
    rintro R s s' line ⟨rfl, heq, hs, hsize⟩
    refine ⟨rfl, ?_, hs.grow le_rfl rfl fun _ hi => hi, hsize⟩
    exact congrArg (Store.print · line) heq

/-- **A name that is not mentioned does not matter.**  Where no signal can be reached, a tree is
evaluated once more with one more name bound to whatever value.  If the name stands neither in
the tree nor in any function that can be reached, then what comes of the tree is the same, the
same is printed, and all scopes bind all other names to the same values in the same order, so
that the same is found under all other names. -/
theorem unmentioned_name_does_not_matter (depth : Nat) (n : Node) (scope : ScopeId) (s : Store)
    (z : String) (v : Value) (free : s.SignalFree scope) (hn : ¬ n.Mentions z)
    (hz : s.Unmentioned scope z) :
    let plain := (Evaluation.eval depth n scope).outcome s
    let other := (Evaluation.eval depth n scope).outcome (s.bind scope z v)
    other.1 = plain.1 ∧ other.2.printed = plain.2.printed ∧
      (∀ i, ((other.2.bindings i).filter fun b => b.1 ≠ z) =
        (plain.2.bindings i).filter fun b => b.1 ≠ z) ∧
      ∀ i name, name ≠ z → other.2.lookup i name = plain.2.lookup i name := by
  -- the scopes that are reached, and those that are yet to be made
  let L : ScopeId → Prop := fun i => s.ReachesScope scope i ∨ s.size ≤ i
  have hL : ∀ i, s.ReachesScope scope i → L i := fun _ => Or.inl
  have hwithin : s.Within (.except z) (.within L) := by
    constructor
    · rintro i here ⟨-, hi | hi⟩ is_there b hb
      · exact Store.like_of_reachesValue free hz hL b.2 (.bound hi is_there hb)
      · exact absurd is_there (by simp [Array.getElem?_eq_none hi])
    · rintro i here ⟨-, hi | hi⟩ is_there o ho
      · exact ⟨rfl, .inl (.outer hi is_there ho)⟩
      · exact absurd is_there (by simp [Array.getElem?_eq_none hi])
  have hsame : s.without z = (s.bind scope z v).without z :=
    (Store.bind_without_self scope v).symm
  have hrun := Evaluation.mirrors_eval (.without z L s.size fun _ => Or.inr) depth (.within L) n
    scope scope (Node.within_except_iff.mpr hn) ⟨rfl, .inl .start⟩ le_rfl
    ⟨rfl, hsame, hwithin, Nat.le_refl _⟩
  -- stores that are the same without the name agree on all that is asked for
  have hrest : ∀ t t' : Store, t.without z = t'.without z → t'.printed = t.printed ∧
      (∀ i, ((t'.bindings i).filter fun b => b.1 ≠ z) =
        (t.bindings i).filter fun b => b.1 ≠ z) ∧
      ∀ i name, name ≠ z → t'.lookup i name = t.lookup i name := by
    intro t t' heq
    refine ⟨(congrArg Store.printed heq).symm, fun i => ?_, fun i name hname => ?_⟩
    · rw [← Store.bindings_without, ← heq, Store.bindings_without]
    · rw [← Store.lookup_without hname, ← heq, Store.lookup_without hname]
  intro plain other
  simp only [plain, other, Evaluation.outcome]
  generalize Evaluation.eval depth n scope s = r,
    Evaluation.eval depth n scope (s.bind scope z v) = r' at hrun
  cases hrun with
  | ok grown related results =>
    obtain ⟨rfl, heq, -, -⟩ := related
    refine ⟨?_, hrest _ _ heq⟩
    cases results with
    | none => rfl
    | some hv => rw [Links.eq_of_like hv]
  | error grown related =>
    obtain ⟨rfl, heq, -, -⟩ := related
    exact ⟨rfl, hrest _ _ heq⟩

/-- A call of a function, once more with the name of a builtin bound to null. -/
theorem unmentioned_name_does_not_matter_builtin :
    let s := runAll 20 ["let f = fn(x) { x + 1 };"] 0 (Store.empty.addScope none)
    let call := Node.call default (.identifier default "f") [.integer default 1]
    s.SignalFree 0 ∧ ¬ call.Mentions "len" ∧ s.Unmentioned 0 "len" ∧
    ∃ k, k = 2 ∧ ((Evaluation.eval 20 call 0).outcome s).1 = .finished (some (.integer k)) ∧
      ((Evaluation.eval 20 call 0).outcome (s.bind 0 "len" .null)).1 =
        .finished (some (.integer k)) := by
  intro s call
  have hempty : (Store.empty.addScope none).SignalFree 0 := by
    refine Store.signalFree_iff.mpr ⟨fun _ => True, trivial, ?_⟩
    exact (Store.plain_empty fun _ => trivial).addScope nofun
  have hfree : s.SignalFree 0 := signalFree_runAll _ hempty hempty
  have hnames : ∀ text ∈ ["let f = fn(x) { x + 1 };"], ∀ t ∈ tokens text, t.kind = .ident →
      t.literal ≠ "len" := by
    decide +kernel
  have hone : 0 < (Store.empty.addScope none).size := Nat.one_pos
  have hclosed : s.Closed (.except "len") :=
    (closed_runAll (fun _ _ => trivial) hnames hone (Store.closed_empty.addScope nofun)).1
  have hcall : ¬ call.Mentions "len" := by
    refine Node.within_except_iff.mp (Node.within_of_children rfl ?_)
    have hf : (Node.identifier default "f").Within (.except "len") :=
      Node.within_identifier (by decide : "f" ≠ "len")
    have hk : (Node.integer default 1).Within (.except "len") := Node.within_integer trivial
    intro m hm
    rcases List.mem_cons.mp hm with rfl | hm
    · exact hf
    · exact List.mem_singleton.mp hm ▸ hk
  have hrun : ((Evaluation.eval 20 call 0).outcome s).1.value?.bind Value.key? =
      some (.integer 2) := by
    decide +kernel
  have hplain := Outcome.eq_of_key? hrun
  obtain ⟨hsame, -⟩ := unmentioned_name_does_not_matter 20 call 0 s "len" .null hfree hcall
    (hclosed.unmentioned 0)
  exact ⟨hfree, hcall, hclosed.unmentioned 0, 2, rfl, hplain, hsame.trans hplain⟩

end Monkey
