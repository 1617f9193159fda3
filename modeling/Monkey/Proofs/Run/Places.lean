import Monkey.Proofs.Run.Append
import Monkey.Proofs.Token.Rendering

/-!
# Layout does not matter

Two texts with the same tokens, apart from their places, are read as the same tree with the same
complaints, and come to the same in stores that are equal apart from places.  Places are not to be
seen either: neither in complaints nor in printed lines, nor in what a result or a bound value
looks like.  Even the depth at which reading gives up is the same for both.

A text has no token twice, so the tokens of the one can be moved to those of the other, one by one.

## Main definitions

* `Relocation.between` — the tokens of one row are moved to those of another one.
* `Parsed.unplaced` — what is read of a text, with the places of all tokens forgotten.
* `Outcome.shown`, `Store.shown` — what can be seen of an outcome and of the names in a scope.

## Main results

* `isSome_parse_of_signatures`, `unplaced_parse` — reading.
* `unplaced_run` — running.
* `layout_does_not_matter` — both, and what can be seen of them.
-/

namespace Monkey

/-! ### From one row of tokens to another -/

section

variable {ts us : List Token}

/-- What stands at the place of a token in another row has the kind and the literal of it. -/
theorem signature_lookup_zip (h : ts.map Token.signature = us.map Token.signature) (t : Token) :
    (((ts.zip us).lookup t).getD t).signature = t.signature := by
  induction ts generalizing us with
  | nil => rfl
  | cons a ts ih =>
    cases us with
    | nil => rfl
    | cons b us =>
      obtain ⟨hhead, htail⟩ := List.cons.inj h
      rw [List.zip_cons_cons, List.lookup_cons]
      split
      · next heq => rw [Option.getD_some, ← hhead, ← eq_of_beq heq]
      · exact ih htail

/-- The tokens of a row are moved to those of another row, each to the one at its place. -/
def Relocation.between (ts us : List Token)
    (h : ts.map Token.signature = us.map Token.signature) : Relocation where
  move t := ((ts.zip us).lookup t).getD t
  kind_move t := congrArg Prod.fst (signature_lookup_zip h t)
  literal_move t := congrArg Prod.snd (signature_lookup_zip h t)

theorem Relocation.map_between (h : ts.map Token.signature = us.map Token.signature)
    (hn : ts.Nodup) : ts.map (between ts us h).move = us := by
  induction ts generalizing us with
  | nil => exact (List.map_eq_nil_iff.mp h.symm).symm
  | cons a ts ih =>
    cases us with
    | nil => cases h
    | cons b us =>
      obtain ⟨hnew, hn⟩ := List.nodup_cons.mp hn
      obtain ⟨-, htail⟩ := List.cons.inj h
      have hhead : (between (a :: ts) (b :: us) h).move a = b := by
        simp only [between, List.zip_cons_cons, List.lookup_cons_self, Option.getD_some]
      have hsame : ts.map (between (a :: ts) (b :: us) h).move =
          ts.map (between ts us htail).move := by
        refine List.map_congr_left fun t ht => ?_
        have hne : (t == a) = false := beq_false_of_ne fun heq => hnew (heq ▸ ht)
        simp only [between, List.zip_cons_cons, List.lookup_cons, hne]
      rw [List.map_cons, hhead, hsame, ih htail hn]

end

/-! ### Reading -/

/-- What is read of a text, with the places of all tokens forgotten. -/
def Parsed.unplaced (p : Parsed) : Parsed :=
  ⟨p.program.mapTokens Relocation.forget.move,
    p.complaints.map (Complaint.mapToken Relocation.forget.move)⟩

section

variable {depth : Nat} {text text' : String} {p : Parsed}

theorem nodup_tokens (text : String) : (tokens text).Nodup :=
  (List.nodup_append.mp (nodup_tokenize text)).1

theorem signatures_tokens
    (h : (tokenize text).map Token.signature = (tokenize text').map Token.signature) :
    (tokens text).map Token.signature = (tokens text').map Token.signature := by
  rw [tokenize, tokenize, List.map_append, List.map_append] at h
  exact List.append_inj_left' h rfl

theorem map_forget_tokens_of_signatures
    (h : (tokens text).map Token.signature = (tokens text').map Token.signature) :
    (tokens text).map Relocation.forget.move = (tokens text').map Relocation.forget.move := by
  have hforget : Relocation.forget.move =
      (fun s => ⟨s.1, s.2, 0, 0⟩) ∘ Token.signature := rfl
  rw [hforget, ← List.map_map, ← List.map_map, h]

/-- A depth that is enough for a text is enough for the other one. -/
theorem isSome_parse_of_signatures
    (h : (tokens text).map Token.signature = (tokens text').map Token.signature)
    (hp : (parse depth text).isSome) : (parse depth text').isSome := by
  obtain ⟨p, hp⟩ := Option.isSome_iff_exists.mp hp
  obtain ⟨count, hr⟩ := exists_program_of_parse (.between _ _ h) hp (Nat.le_refl depth)
  rw [Relocation.map_between h (nodup_tokens text)] at hr
  rw [parse, hr]
  rfl

/-- **Texts with the same tokens are read as the same, apart from places.** -/
theorem unplaced_parse
    (h : (tokens text).map Token.signature = (tokens text').map Token.signature) (depth : Nat) :
    (parse depth text).map Parsed.unplaced = (parse depth text').map Parsed.unplaced := by
  have henough : (parse depth text).isSome = (parse depth text').isSome :=
    Bool.eq_iff_iff.mpr ⟨isSome_parse_of_signatures h, isSome_parse_of_signatures h.symm⟩
  cases hp : parse depth text with
  | none =>
    rw [hp, Option.isSome_none, eq_comm, Option.isSome_eq_false_iff, Option.isNone_iff_eq_none]
      at henough
    rw [henough]
  | some p =>
    rw [hp, Option.isSome_some, eq_comm] at henough
    obtain ⟨p', hp'⟩ := Option.isSome_iff_exists.mp henough
    obtain ⟨count, hr⟩ := exists_program_of_parse .forget hp (Nat.le_refl depth)
    obtain ⟨count', hr'⟩ := exists_program_of_parse .forget hp' (Nat.le_refl depth)
    rw [map_forget_tokens_of_signatures h, hr', Option.some.injEq, Reading.mk.injEq] at hr
    rw [hp', Option.map_some, Option.map_some, Parsed.unplaced, Parsed.unplaced, hr.1, hr.2.2]

end

/-! ### Running -/

open Evaluation in
/-- **Texts with the same tokens come to the same, apart from places.** -/
theorem unplaced_run {text text' : String}
    (h : (tokens text).map Token.signature = (tokens text').map Token.signature) (depth : Nat)
    (scope : ScopeId) {s s' : Store}
    (hs : s.mapTokens Relocation.forget.move = s'.mapTokens Relocation.forget.move) :
    Outcome.unplaced (run depth text scope s) = Outcome.unplaced (run depth text' scope s') := by
  have hread := unplaced_parse h depth
  have hmoves := moves_eval .forget depth
  cases hp : parse depth text with
  | none =>
    cases hp' : parse depth text' with
    | some p' =>
      rw [hp, hp'] at hread
      cases hread
    | none =>
      rw [run, run, hp, hp']
      exact Prod.ext rfl hs
  | some p =>
    cases hp' : parse depth text' with
    | none =>
      rw [hp, hp'] at hread
      cases hread
    | some p' =>
      rw [hp, hp'] at hread
      obtain ⟨hprogram, hcomplaints⟩ := Parsed.mk.inj (Option.some.inj hread)
      have hempty := congrArg List.isEmpty hcomplaints
      rw [List.isEmpty_map, List.isEmpty_map] at hempty
      rw [run, run, hp, hp']
      simp only [hempty]
      split
      · rw [unplaced_outcome (hmoves p.program scope), unplaced_outcome (hmoves p'.program scope),
          hprogram, hs]
      · exact Prod.ext (congrArg Outcome.refused hcomplaints) hs

/-! ### What can be seen -/

/-- What can be seen of an outcome: the wordings of complaints, a stop, or the text of a result. -/
inductive Shown
  | refused (messages : List String)
  | stopped (why : Stop)
  | finished (result : Option (Except Stop String))

/-- What can be seen of an outcome, at a depth for the text of a result. -/
def Outcome.shown (depth : Nat) : Outcome → Shown
  | refused complaints => .refused (complaints.map Complaint.message)
  | stopped why => .stopped why
  | finished result => .finished (result.map (Value.inspect? depth))

/-- The names that a scope binds, with the texts of their values. -/
def Store.shown (depth : Nat) (s : Store) (scope : ScopeId) : List (String × Except Stop String) :=
  (s.bindings scope).map (Prod.map id (Value.inspect? depth))

theorem Outcome.shown_mapTokens (f : Relocation) (depth : Nat) (o : Outcome) :
    (o.mapTokens f.move).shown depth = o.shown depth := by
  cases o with
  | refused complaints => exact congrArg Shown.refused (Complaint.map_message_map f complaints)
  | stopped why => rfl
  | finished result =>
    cases result with
    | none => rfl
    | some v => exact congrArg (Shown.finished ∘ some) (Value.inspect?_mapTokens f depth v)

theorem Store.shown_mapTokens (f : Relocation) (depth : Nat) (s : Store) (scope : ScopeId) :
    (s.mapTokens f.move).shown depth scope = s.shown depth scope := by
  have hvalues : Value.inspect? depth ∘ Value.mapTokens f.move = Value.inspect? depth :=
    funext (Value.inspect?_mapTokens f depth)
  unfold Store.shown Store.bindings Store.mapTokens
  rw [Array.getElem?_map]
  cases s.scopes[scope]? with
  | none => rfl
  | some c =>
    simp only [Option.map_some, Option.getD_some, Scope.mapTokens, List.map_map, Prod.map_comp_map,
      Function.id_comp, hvalues]

/-- **Layout does not matter.**  Let two texts have the same tokens, places apart.  Then they are
read at the same depths, as trees that are equal up to lines and columns, with complaints of the
same wording.  And if they are run in the same scope of stores that are equal up to places, then
their outcomes and the stores behind them are equal up to places as well: the same is printed, the
results look the same or the same is complained about, and in every scope the same names are bound
to values that look the same. -/
theorem layout_does_not_matter {text text' : String}
    (h : (tokenize text).map Token.signature = (tokenize text').map Token.signature) :
    (∀ depth,
      (parse depth text).map Parsed.unplaced = (parse depth text').map Parsed.unplaced ∧
      (parse depth text).map (fun p => p.complaints.map Complaint.message) =
        (parse depth text').map (fun p => p.complaints.map Complaint.message)) ∧
    ∀ (depth : Nat) (scope : ScopeId) (s s' : Store),
      s.mapTokens Relocation.forget.move = s'.mapTokens Relocation.forget.move →
      Outcome.unplaced (run depth text scope s) = Outcome.unplaced (run depth text' scope s') ∧
      (run depth text scope s).2.printed = (run depth text' scope s').2.printed ∧
      ∀ d, (run depth text scope s).1.shown d = (run depth text' scope s').1.shown d ∧
        ∀ i, (run depth text scope s).2.shown d i = (run depth text' scope s').2.shown d i := by
  have htokens := signatures_tokens h
  constructor
  · intro depth
    have hread := unplaced_parse htokens depth
    have hmessages := congrArg (Option.map fun p => p.complaints.map Complaint.message) hread
    simp only [Option.map_map, Function.comp_def, Parsed.unplaced, Complaint.map_message_map]
      at hmessages
    exact ⟨hread, hmessages⟩
  · intro depth scope s s' hs
    have hrun := unplaced_run htokens depth scope hs
    obtain ⟨houtcome, hstore⟩ := Prod.ext_iff.mp hrun
    simp only [Outcome.unplaced, Prod.map_fst, Prod.map_snd] at houtcome hstore
    refine ⟨hrun, ?_, fun d => ⟨?_, fun i => ?_⟩⟩
    · have hprinted := congrArg Store.printed hstore
      exact hprinted
    · have hshown := congrArg (Outcome.shown d) houtcome
      rwa [Outcome.shown_mapTokens, Outcome.shown_mapTokens] at hshown
    · have hshown := congrArg (Store.shown d · i) hstore
      simp only [Store.shown_mapTokens] at hshown
      exact hshown

/-- One program on a line and on several ones: it prints a function and ends with an error. -/
theorem layout_does_not_matter_lines :
    let text := "let f=fn(x)\x7bputs(x);-x\x7d;f(f)"
    let text' := "let f = fn(x) \x7b\n  puts(x);\n  -x\n\x7d;\n\nf( f )"
    let s := Store.empty.addScope none
    (tokenize text).map Token.signature = (tokenize text').map Token.signature ∧
    tokenize text ≠ tokenize text' ∧
    (run 40 text 0 s).2.printed = "fn(x) \x7b\nputs(x)(-x)\n\x7d\n" ∧
    (run 40 text' 0 s).2.printed = "fn(x) \x7b\nputs(x)(-x)\n\x7d\n" ∧
    (run 40 text 0 s).1.shown 40 = (run 40 text' 0 s).1.shown 40 ∧
    (run 40 text 0 s).2.shown 40 0 = (run 40 text' 0 s).2.shown 40 0 := by
  intro text text' s
  have same : (tokenize text).map Token.signature = (tokenize text').map Token.signature := by
    decide +kernel
  have printed : (run 40 text 0 s).2.printed = "fn(x) \x7b\nputs(x)(-x)\n\x7d\n" := by
    decide +kernel
  obtain ⟨-, hprinted, hshown⟩ := (layout_does_not_matter same).2 40 0 s s rfl
  obtain ⟨hresult, hnames⟩ := hshown 40
  exact ⟨same, by decide +kernel, printed, hprinted ▸ printed, hresult, hnames 0⟩

end Monkey
