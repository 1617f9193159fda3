import Monkey.Evaluation.Eval
import Monkey.Proofs.Value.Like

/-!
# Two runs side by side

Two stores are related as a mirror says.  A mirror has one law for each way in which an
evaluation touches the store: names that are looked up, bound, a scope that is added, an identity
that is given out, a line that is printed.  Nothing else is needed: evaluations of the same tree
in linked scopes then go side by side.  They give values that are alike or stop for the same
cause, and they leave stores that are related again, with more links than before.

Every construct goes on from links that may have grown on the way, so the relation between two
evaluations is closed under that: it speaks of all links from some on.

## Main definitions

* `Mirror` — how two stores are related, and the laws.
* `Mirror.Ends`, `Evaluation.Mirrors` — two evaluations come to the same.

## Main results

* `Evaluation.Mirrors.bind` — two parts in a row.
* `Evaluation.mirrors_eval`, `Evaluation.mirrors_apply` — trees and calls.
-/

namespace Monkey

/-- A relation between the stores of two runs, which depends on what is linked, and which
evaluations keep. -/
structure Mirror (V : Vocabulary) where
  Related : Links → Store → Store → Prop
  lookup : ∀ {R : Links} {s s' : Store} {a b : ScopeId} {name : String}, Related R s s' →
    R.scope a b → V.name name →
    Option.Rel (Value.Like V R) (s.lookup a name) (s'.lookup b name)
  bind : ∀ {R : Links} {s s' : Store} {a b : ScopeId} {v w : Value} (name : String),
    Related R s s' → R.scope a b → v.Like V R w →
    Related R (s.bind a name v) (s'.bind b name w)
  addScope : ∀ {R : Links} {s s' : Store} {a b : ScopeId}, Related R s s' → R.scope a b →
    ∃ R', R ≤ R' ∧ R'.scope s.size s'.size ∧
      Related R' (s.addScope (some a)) (s'.addScope (some b))
  issue : ∀ {R : Links} {s s' : Store}, Related R s s' →
    ∃ R', R ≤ R' ∧ R'.identity s.next s'.next ∧ Related R' s.issue s'.issue
  print : ∀ {R : Links} {s s' : Store} (line : String), Related R s s' →
    Related R (s.print line) (s'.print line)

variable {V : Vocabulary} {α β γ δ : Type}

/-- What two evaluations come to: results that are related, or the same cause to stop.  The stores
behind them are related, and links have only become more. -/
inductive Mirror.Ends (M : Mirror V) (R : Links) (Q : Links → α → β → Prop) :
    EStateM.Result Stop Store α → EStateM.Result Stop Store β → Prop
  | ok {R' : Links} {a : α} {b : β} {t t' : Store} (grown : R ≤ R')
      (related : M.Related R' t t') (results : Q R' a b) : Ends M R Q (.ok a t) (.ok b t')
  | error {R' : Links} {why : Stop} {t t' : Store} (grown : R ≤ R')
      (related : M.Related R' t t') : Ends M R Q (.error why t) (.error why t')

theorem Mirror.Ends.of_le {M : Mirror V} {R R' : Links} {Q : Links → α → β → Prop}
    {r : EStateM.Result Stop Store α} {r' : EStateM.Result Stop Store β} (h : M.Ends R' Q r r')
    (hR : R ≤ R') : M.Ends R Q r r' := by
  cases h with
  | ok grown related results => exact .ok (hR.trans grown) related results
  | error grown related => exact .error (hR.trans grown) related

namespace Evaluation

variable {M : Mirror V} {R : Links} {Q : Links → α → β → Prop} {Q' : Links → γ → δ → Prop}

/-- From stores that are related, whatever is linked by then, two evaluations come to the same. -/
def Mirrors (M : Mirror V) (R : Links) (Q : Links → α → β → Prop) (e : Evaluation α)
    (e' : Evaluation β) : Prop :=
  ∀ ⦃R' : Links⦄ ⦃s s' : Store⦄, R ≤ R' → M.Related R' s s' → M.Ends R' Q (e s) (e' s')

/-! ### Combinators -/

theorem Mirrors.mono {R' : Links} {e : Evaluation α} {e' : Evaluation β}
    (h : Mirrors M R Q e e') (hR : R ≤ R') : Mirrors M R' Q e e' :=
  fun _ _ _ hR' hs => h (hR.trans hR') hs

theorem Mirrors.pure {a : α} {b : β} (h : ∀ R', R ≤ R' → Q R' a b) :
    Mirrors M R Q (Pure.pure a) (Pure.pure b) :=
  fun R' _ _ hR hs => .ok le_rfl hs (h R' hR)

theorem Mirrors.throw (why : Stop) : Mirrors M R Q (throw why) (throw why) :=
  fun _ _ _ _ hs => .error le_rfl hs

theorem Mirrors.bind {e : Evaluation α} {e' : Evaluation β} {k : α → Evaluation γ}
    {k' : β → Evaluation δ} (h : Mirrors M R Q e e')
    (hk : ∀ R' a b, R ≤ R' → Q R' a b → Mirrors M R' Q' (k a) (k' b)) :
    Mirrors M R Q' (e >>= k) (e' >>= k') := by
  intro R₁ s s' hR hs
  have h := h hR hs
  simp only [Bind.bind, EStateM.bind]
  generalize e s = r, e' s' = r' at h
  cases h with
  | @ok R₂ a b t t' grown related results =>
    -- the second part begins with the links behind the first one
    exact (hk R₂ a b (hR.trans grown) results le_rfl related).of_le grown
  | error grown related => exact .error grown related

theorem Mirrors.map {e : Evaluation α} {e' : Evaluation β} {k : α → γ} {k' : β → δ}
    (h : Mirrors M R Q e e') (hk : ∀ R' a b, Q R' a b → Q' R' (k a) (k' b)) :
    Mirrors M R Q' (k <$> e) (k' <$> e') := by
  intro R₁ s s' hR hs
  have h := h hR hs
  simp only [Functor.map, EStateM.map]
  generalize e s = r, e' s' = r' at h
  cases h with
  | ok grown related results => exact .ok grown related (hk _ _ _ results)
  | error grown related => exact .error grown related

theorem Mirrors.ite {c : Prop} [Decidable c] {e₁ e₂ : Evaluation α} {e₁' e₂' : Evaluation β}
    (h₁ : Mirrors M R Q e₁ e₁') (h₂ : Mirrors M R Q e₂ e₂') :
    Mirrors M R Q (if c then e₁ else e₂) (if c then e₁' else e₂') := by
  split
  · exact h₁
  · exact h₂

/-- What changes the stores and links no more than there was. -/
theorem Mirrors.modify {f f' : Store → Store}
    (h : ∀ R' s s', R ≤ R' → M.Related R' s s' → M.Related R' (f s) (f' s')) :
    Mirrors M R (fun _ _ _ => True) (modify f) (modify f') :=
  fun R' s s' hR hs => .ok le_rfl (h R' s s' hR hs) trivial

/-! ### Results -/

/-- Results that may be missing are alike. -/
abbrev LikeResult (V : Vocabulary) (R : Links) : Option Value → Option Value → Prop :=
  Option.Rel (Value.Like V R)

/-- Rows of values are alike. -/
abbrev LikeAll (V : Vocabulary) (R : Links) : List Value → List Value → Prop :=
  List.Forall₂ (Value.Like V R)

theorem likeResult_mono {R R' : Links} {o o' : Option Value} (h : LikeResult V R o o')
    (hR : R ≤ R') : LikeResult V R' o o' := by
  cases h with
  | some h => exact .some (h.mono hR)
  | none => exact .none

theorem Mirrors.value {v w : Value} (h : v.Like V R w) :
    Mirrors M R (Value.Like V) (Pure.pure v) (Pure.pure w) :=
  .pure fun _ hR => h.mono hR

theorem Mirrors.result {o o' : Option Value} (h : LikeResult V R o o') :
    Mirrors M R (LikeResult V) (Pure.pure o) (Pure.pure o') :=
  .pure fun _ hR => likeResult_mono h hR

/-! ### Objects, errors and lines -/

theorem mirrors_issue : Mirrors M R (fun R' i j => R'.identity i j) issue issue := by
  intro R' s s' hR hs
  obtain ⟨R'', hR', hi, hs'⟩ := M.issue hs
  exact .ok hR' hs' hi

theorem mirrors_raise (fault : Fault) : Mirrors M R (Value.Like V) (raise fault) (raise fault) :=
  mirrors_issue.bind fun _ _ _ _ hi => .value (.error hi fault)

theorem mirrors_settle {r r' : Except Fault Value} (h : ExceptRel Eq (Value.Like V R) r r') :
    Mirrors M R (Value.Like V) (settle r) (settle r') := by
  cases h with
  | ok h => exact .value h
  | error h =>
    subst h
    exact mirrors_raise _

theorem mirrors_printLine (depth : Nat) {v w : Value} (h : v.Like V R w) :
    Mirrors M R (fun _ _ _ => True) (printLine depth v) (printLine depth w) := by
  unfold printLine
  rw [h.inspect?]
  split
  · exact .modify fun _ _ _ _ hs => M.print _ hs
  · exact .throw _

/-! ### Names -/

theorem mirrors_bindName {a b : ScopeId} (hscope : R.scope a b) (name : Node) {v w : Value}
    (h : v.Like V R w) :
    Mirrors M R (fun _ _ _ => True) (bindName a name v) (bindName b name w) := by
  unfold bindName
  split
  · exact .modify fun R' _ _ hR hs => M.bind _ hs (hR.2 _ _ hscope) (h.mono hR)
  · exact .pure fun _ _ => trivial
  · exact .throw _

theorem mirrors_bindNames {a b : ScopeId} (hscope : R.scope a b) (parameters : List Node)
    {vs ws : List Value} (h : LikeAll V R vs ws) :
    Mirrors M R (fun _ _ _ => True) (bindNames a (parameters.zip vs))
      (bindNames b (parameters.zip ws)) := by
  induction h generalizing parameters with
  | nil =>
    rw [List.zip_nil_right]
    exact .pure fun _ _ => trivial
  | cons head tail ih =>
    cases parameters with
    | nil => exact .pure fun _ _ => trivial
    | cons p parameters =>
      exact (mirrors_bindName hscope p head).bind fun _ _ _ hR _ => (ih parameters).mono hR

theorem mirrors_enter {a b : ScopeId} (hscope : R.scope a b) (parameters : List Node)
    {vs ws : List Value} (h : LikeAll V R vs ws) :
    Mirrors M R (fun R' i j => R'.scope i j) (enter a parameters vs) (enter b parameters ws) := by
  have hnew : Mirrors M R (fun R' i j => R'.scope i j)
      (modifyGet fun s : Store => (s.size, s.addScope (some a)) : Evaluation ScopeId)
      (modifyGet fun s : Store => (s.size, s.addScope (some b))) := by
    intro R' s s' hR hs
    obtain ⟨R'', hR', hnew, hs'⟩ := M.addScope hs (hR.2 _ _ hscope)
    exact .ok hR' hs' hnew
  refine hnew.bind fun R₁ i j hR₁ hij => ?_
  refine (mirrors_bindNames hij parameters (Value.Like.monoAll hR₁ h)).bind fun R₂ _ _ hR₂ _ => ?_
  exact .pure fun R₃ hR₃ => (hR₂.trans hR₃).2 _ _ hij

/-! ### Builtins -/

theorem mirrors_onOne {k k' : Value → Evaluation Value} {vs ws : List Value}
    (h : LikeAll V R vs ws)
    (hk : ∀ v w, v.Like V R w → Mirrors M R (Value.Like V) (k v) (k' w)) :
    Mirrors M R (Value.Like V) (Builtin.onOne k vs) (Builtin.onOne k' ws) := by
  match h with
  | .nil => exact mirrors_raise _
  | .cons head .nil => exact hk _ _ head
  | .cons _ (.cons _ tail) =>
    simp only [Builtin.onOne, List.length_cons, tail.length_eq]
    exact mirrors_raise _

theorem mirrors_onArray (b : Builtin) {k k' : List Value → Evaluation Value} {v w : Value}
    (h : v.Like V R w)
    (hk : ∀ vs ws, LikeAll V R vs ws → Mirrors M R (Value.Like V) (k vs) (k' ws)) :
    Mirrors M R (Value.Like V) (Builtin.onArray b k v) (Builtin.onArray b k' w) := by
  cases h with
  | array linked elements => exact hk _ _ elements
  | _ => exact mirrors_raise _

theorem mirrors_length (hlen : V.builtin .len) {v w : Value} (h : v.Like V R w) :
    Mirrors M R (Value.Like V) (Builtin.length v) (Builtin.length w) := by
  cases h with
  | array linked elements =>
    simp only [Builtin.length, elements.length_eq]
    exact .value (.integer (V.length hlen _))
  | string text => exact .value (.integer (V.length hlen _))
  | _ => exact mirrors_raise _

/-- Arrays that are made of elements that are alike. -/
theorem mirrors_array {vs ws : List Value} (h : LikeAll V R vs ws) :
    Mirrors M R (Value.Like V) (do return .array (← issue) vs)
      (do return .array (← issue) ws) :=
  mirrors_issue.bind fun _ _ _ hR hi => .value (.array hi (Value.Like.monoAll hR h))

theorem mirrors_restOf {vs ws : List Value} (h : LikeAll V R vs ws) :
    Mirrors M R (Value.Like V) (Builtin.restOf vs) (Builtin.restOf ws) := by
  cases h with
  | nil => exact .value .null
  | cons head tail => exact mirrors_array tail

theorem mirrors_pushOnto {vs ws : List Value} (h : LikeAll V R vs ws) :
    Mirrors M R (Value.Like V) (Builtin.pushOnto vs) (Builtin.pushOnto ws) := by
  match h with
  | .nil => exact mirrors_raise _
  | .cons head .nil => cases head <;> exact mirrors_raise _
  | .cons head (.cons second .nil) =>
    cases head with
    | array linked elements => exact mirrors_array (List.rel_append elements (.cons second .nil))
    | _ => exact mirrors_raise _
  | .cons head (.cons _ (.cons _ tail)) =>
    cases head <;>
    · simp only [Builtin.pushOnto, List.length_cons, tail.length_eq]
      exact mirrors_raise _

theorem mirrors_printAll (depth : Nat) {vs ws : List Value} (h : LikeAll V R vs ws) :
    Mirrors M R (Value.Like V) (Builtin.printAll depth vs) (Builtin.printAll depth ws) := by
  induction h with
  | nil => exact .value .null
  | cons head tail ih => exact (mirrors_printLine depth head).bind fun _ _ _ hR _ => ih.mono hR

theorem mirrors_builtin (depth : Nat) {b : Builtin} (hb : V.builtin b) {vs ws : List Value}
    (h : LikeAll V R vs ws) :
    Mirrors M R (Value.Like V) (b.apply depth vs) (b.apply depth ws) := by
  cases b with
  | first =>
    refine mirrors_onOne h fun v w hv => mirrors_onArray _ hv fun vs ws hvs => .value ?_
    rw [List.head?_eq_getElem?, List.head?_eq_getElem?]
    exact Value.like_getD (Value.like_getElem? hvs 0)
  | last =>
    refine mirrors_onOne h fun v w hv => mirrors_onArray _ hv fun vs ws hvs => .value ?_
    rw [List.getLast?_eq_getElem?, List.getLast?_eq_getElem?, hvs.length_eq]
    exact Value.like_getD (Value.like_getElem? hvs _)
  | len => exact mirrors_onOne h fun v w hv => mirrors_length hb hv
  | push => exact mirrors_pushOnto h
  | puts => exact mirrors_printAll depth h
  | rest =>
    exact mirrors_onOne h fun v w hv => mirrors_onArray _ hv fun vs ws hvs => mirrors_restOf hvs

/-! ### Constructs -/

/-- The constructs are over evaluations of parts that go side by side already. -/
def MirrorsAll (M : Mirror V) (E : Evaluator) : Prop :=
  ∀ (R : Links) (n : Node) (a b : ScopeId), n.Within V → R.scope a b →
    Mirrors M R (LikeResult V) (E n a) (E n b)

section

variable {E : Evaluator} (hE : MirrorsAll M E) {a b : ScopeId} (hscope : R.scope a b)

include hE hscope

theorem mirrors_value {n : Node} (hn : n.Within V) :
    Mirrors M R (Value.Like V) (value E n a) (value E n b) :=
  (hE R n a b hn hscope).bind fun _ _ _ _ ho => .value (Value.like_getD ho)

theorem mirrors_operand {n : Node} (hn : n.Within V) {k k' : Value → Evaluation (Option Value)}
    (hk : ∀ R' v w, R ≤ R' → v.Like V R' w → Mirrors M R' (LikeResult V) (k v) (k' w)) :
    Mirrors M R (LikeResult V) (operand E n a k) (operand E n b k') := by
  refine (mirrors_value hE hscope hn).bind fun R' v w hR hv => ?_
  rw [hv.isSignal]
  exact .ite (.result (.some hv)) (hk R' v w hR hv)

theorem mirrors_values {ns : List Node} (hns : ∀ n ∈ ns, n.Within V) :
    Mirrors M R (fun R' => ExceptRel (Value.Like V R') (LikeAll V R')) (values E a ns)
      (values E b ns) := by
  induction ns with
  | nil => exact .pure fun _ _ => .ok .nil
  | cons n ns ih =>
    obtain ⟨hn, hns⟩ := List.forall_mem_cons.mp hns
    refine (mirrors_value hE hscope hn).bind fun R₁ v w hR₁ hv => ?_
    rw [hv.isSignal]
    refine .ite (.pure fun _ hR => .error (hv.mono hR)) ?_
    refine ((ih hns).mono hR₁).bind fun R₂ r r' hR₂ hr => ?_
    cases hr with
    | ok hvs =>
      exact .pure fun _ hR => .ok (.cons (hv.mono (hR₂.trans hR)) (Value.Like.monoAll hR hvs))
    | error hsignal => exact .pure fun _ hR => .error (hsignal.mono hR)

theorem mirrors_entries {ps : List (Node × Node)}
    (hps : ∀ p ∈ ps, p.1.Within V ∧ p.2.Within V) {ds es : List (Value × Value)}
    (hds : List.Forall₂ (Value.LikeEntry V R) ds es) :
    Mirrors M R
      (fun R' => ExceptRel (Value.Like V R') (List.Forall₂ (Value.LikeEntry V R')))
      (entries E a ps ds) (entries E b ps es) := by
  induction ps generalizing R ds es with
  | nil => exact .pure fun _ hR => .ok (Value.Like.monoEntries hR hds)
  | cons p ps ih =>
    obtain ⟨⟨hkey, hval⟩, hps⟩ := List.forall_mem_cons.mp hps
    refine (mirrors_value hE hscope hkey).bind fun R₁ k l hR₁ hk => ?_
    rw [hk.isSignal, hk.key?, hk.kind]
    refine .ite (.pure fun _ hR => .error (hk.mono hR)) (.ite ?_ ?_)
    · exact (mirrors_raise _).bind fun _ _ _ _ h => .pure fun _ hR => .error (h.mono hR)
    · refine (mirrors_value hE (hR₁.2 _ _ hscope) hval).bind fun R₂ v w hR₂ hv => ?_
      rw [hv.isSignal]
      refine .ite (.pure fun _ hR => .error (hv.mono hR)) ?_
      have hR := hR₁.trans hR₂
      exact ih (hR.2 _ _ hscope) hps
        (Value.like_putEntry (Value.Like.monoEntries hR hds) (hk.mono hR₂) hv)

theorem mirrors_runProgram {ns : List Node} (hns : ∀ n ∈ ns, n.Within V)
    {o o' : Option Value} (ho : LikeResult V R o o') :
    Mirrors M R (LikeResult V) (runProgram E a ns o) (runProgram E b ns o') := by
  induction ns generalizing R o o' with
  | nil => exact .result ho
  | cons n ns ih =>
    obtain ⟨hn, hns⟩ := List.forall_mem_cons.mp hns
    refine (hE R n a b hn hscope).bind fun R' r r' hR hr => ?_
    have hrest := ih (hR.2 _ _ hscope) hns hr
    cases hr with
    | none => exact hrest
    | some hv =>
      cases hv with
      | returned linked operand => exact .result (.some operand)
      | error linked fault => exact .result (.some (.error linked fault))
      | _ => exact hrest

theorem mirrors_runBlock {ns : List Node} (hns : ∀ n ∈ ns, n.Within V)
    {o o' : Option Value} (ho : LikeResult V R o o') :
    Mirrors M R (LikeResult V) (runBlock E a ns o) (runBlock E b ns o') := by
  induction ns generalizing R o o' with
  | nil => exact .result ho
  | cons n ns ih =>
    obtain ⟨hn, hns⟩ := List.forall_mem_cons.mp hns
    refine (hE R n a b hn hscope).bind fun R' r r' hR hr => ?_
    have hany : r'.any Value.isSignal = r.any Value.isSignal := by
      cases hr with
      | none => rfl
      | some hv => exact hv.isSignal
    rw [hany]
    exact .ite (.result hr) (ih (hR.2 _ _ hscope) hns hr)

end

theorem mirrors_apply {E : Evaluator} (hE : MirrorsAll M E) (depth : Nat) {callee callee' : Value}
    {vs ws : List Value} (hcallee : callee.Like V R callee') (h : LikeAll V R vs ws) :
    Mirrors M R (Value.Like V) (apply E depth callee vs) (apply E depth callee' ws) := by
  cases hcallee with
  | function linked parametersWithin bodyWithin scopes =>
    refine (mirrors_enter scopes _ h).bind fun R₁ i j hR₁ hij => ?_
    refine (mirrors_value hE hij bodyWithin).bind fun R₂ v w hR₂ hv => ?_
    exact .value hv.unwrapped
  | builtin within => exact mirrors_builtin depth within h
  | _ => exact mirrors_raise _

theorem mirrors_identifier {name : String} (hname : V.name name) {a b : ScopeId}
    (hscope : R.scope a b) :
    Mirrors M R (Value.Like V) (identifier name a) (identifier name b) := by
  have hget : Mirrors M R
      (fun R' s s' => Option.Rel (Value.Like V R') (s.lookup a name) (s'.lookup b name))
      (get : Evaluation Store) get :=
    fun R' s s' hR hs => .ok le_rfl hs (M.lookup hs (hR.2 _ _ hscope) hname)
  refine hget.bind fun R' s s' hR hfound => ?_
  generalize s.lookup a name = o, s'.lookup b name = o' at hfound
  cases hfound with
  | some hv => exact .value hv
  | none =>
    cases hb : Builtin.ofName? name with
    | none => exact mirrors_raise _
    | some b =>
      -- a name that is not bound leads to the builtin of that name
      have hbname : b.name = name := by simpa using List.find?_some hb
      exact .value (.builtin (V.named b (hbname.symm ▸ hname)))

/-! ### Trees -/

theorem mirrors_evalNode {E : Evaluator} (hE : MirrorsAll M E) (depth : Nat) :
    MirrorsAll M (evalNode E depth) := by
  intro R n a b hn hscope
  cases n with
  | missing => exact .result .none
  | bare token => exact .throw _
  | program statements => exact mirrors_runProgram hE hscope (fun m hm => hn.child hm) .none
  | block token statements => exact mirrors_runBlock hE hscope (fun m hm => hn.child hm) .none
  | expressionStatement token expression =>
    have hexpression : expression.Within V := hn.part fun hp => by simp [Node.children, hp]
    exact hE R expression a b hexpression hscope
  | letStatement token name val =>
    have hval : val.Within V := hn.part fun hp => by simp [Node.children, hp]
    refine mirrors_operand hE hscope hval fun R' v w hR hv => ?_
    split
    · exact (mirrors_bindName (hR.2 _ _ hscope) name hv).bind fun _ _ _ _ _ => .result .none
    · exact .result .none
  | returnStatement token val =>
    have hval : val.Within V := hn.part fun hp => by simp [Node.children, hp]
    refine mirrors_operand hE hscope hval fun R' v w hR hv => ?_
    exact mirrors_issue.bind fun _ _ _ hR' hi => .result (.some (.returned hi (hv.mono hR')))
  | identifier token name =>
    exact (mirrors_identifier (hn.name (.self _)) hscope).map fun _ _ _ hv => .some hv
  | integer token k => exact .result (.some (.integer (hn.integer (.self _))))
  | boolean token value => exact .result (.some (.boolean value))
  | string token text => exact .result (.some (.string text))
  | prefixed token operator right =>
    have hright : right.Within V := hn.part fun hp => by simp [Node.children, hp]
    refine mirrors_operand hE hscope hright fun R' v w hR hv => ?_
    exact (mirrors_settle (hv.applyPrefix operator)).map fun _ _ _ h => .some h
  | infixed token left operator right =>
    have hleft : left.Within V := hn.part fun hp => by simp [Node.children, hp]
    have hright : right.Within V := hn.part fun hp => by simp [Node.children, hp]
    refine mirrors_operand hE hscope hleft fun R₁ l l' hR₁ hl => ?_
    refine mirrors_operand hE (hR₁.2 _ _ hscope) hright fun R₂ r r' hR₂ hr => ?_
    exact (mirrors_settle ((hl.mono hR₂).applyInfix operator hr)).map fun _ _ _ h => .some h
  | conditional token condition consequence alternative =>
    have hcondition : condition.Within V := hn.part fun hp => by simp [Node.children, hp]
    have hconsequence : consequence.Within V := hn.part fun hp => by simp [Node.children, hp]
    have halternative : alternative.Within V := hn.part fun hp => by simp [Node.children, hp]
    refine mirrors_operand hE hscope hcondition fun R' c c' hR hc => ?_
    rw [hc.isTruthy]
    have hscope := hR.2 _ _ hscope
    exact .ite (hE R' consequence a b hconsequence hscope)
      (.ite (.result (.some .null)) (hE R' alternative a b halternative hscope))
  | function token parameters body =>
    have hparameters : ∀ p ∈ parameters, p.Within V := fun p hp =>
      hn.child (by simp [Node.children, hp])
    have hbody : body.Within V := hn.part fun hp => by simp [Node.children, hp]
    -- a body that is missing is an empty block
    have hblock : (if body.isMissing then Node.block token [] else body).Within V := by
      split
      · exact Node.within_of_children rfl (List.forall_mem_nil _)
      · exact hbody
    refine mirrors_issue.bind fun R' i j hR hi => .result (.some ?_)
    exact .function hi hparameters hblock (hR.2 _ _ hscope)
  | call token callee arguments =>
    have hcallee : callee.Within V := hn.part fun hp => by simp [Node.children, hp]
    have harguments : ∀ n ∈ arguments, n.Within V := fun n hm =>
      hn.child (by simp [Node.children, hm])
    refine mirrors_operand hE hscope hcallee fun R₁ f f' hR₁ hf => ?_
    refine (mirrors_values hE (hR₁.2 _ _ hscope) harguments).bind fun R₂ r r' hR₂ hr => ?_
    cases hr with
    | error hsignal => exact .result (.some hsignal)
    | ok hvs => exact (mirrors_apply hE depth (hf.mono hR₂) hvs).map fun _ _ _ h => .some h
  | array token elements =>
    refine (mirrors_values hE hscope fun m hm => hn.child hm).bind fun R' r r' hR hr => ?_
    cases hr with
    | error hsignal => exact .result (.some hsignal)
    | ok hvs =>
      exact mirrors_issue.bind fun _ _ _ hR' hi =>
        .result (.some (.array hi (Value.Like.monoAll hR' hvs)))
  | hash token pairs =>
    have hpairs : ∀ p ∈ pairs, p.1.Within V ∧ p.2.Within V := fun p hp =>
      ⟨hn.child (List.mem_flatMap.mpr ⟨p, hp, by simp⟩),
        hn.child (List.mem_flatMap.mpr ⟨p, hp, by simp⟩)⟩
    refine (mirrors_entries hE hscope hpairs .nil).bind fun R' r r' hR hr => ?_
    cases hr with
    | error hsignal => exact .result (.some hsignal)
    | ok hes =>
      exact mirrors_issue.bind fun _ _ _ hR' hi =>
        .result (.some (.hash hi (Value.Like.monoEntries hR' hes)))
  | index token left subscript =>
    have hleft : left.Within V := hn.part fun hp => by simp [Node.children, hp]
    have hsubscript : subscript.Within V := hn.part fun hp => by simp [Node.children, hp]
    refine mirrors_operand hE hscope hleft fun R₁ l l' hR₁ hl => ?_
    refine mirrors_operand hE (hR₁.2 _ _ hscope) hsubscript fun R₂ i i' hR₂ hi => ?_
    exact (mirrors_settle ((hl.mono hR₂).subscript hi)).map fun _ _ _ h => .some h

/-- **Two runs go side by side.**  A tree in linked scopes comes to results that are alike, or it
stops for the same cause in both runs. -/
theorem mirrors_eval (M : Mirror V) (depth : Nat) : MirrorsAll M (eval depth) := by
  induction depth with
  | zero => exact fun _ _ _ _ _ _ => .throw _
  | succ depth ih => exact mirrors_evalNode ih depth

end Evaluation

end Monkey
