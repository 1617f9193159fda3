import Monkey.Syntax.Parse

/-!
# Places and depths do not matter

The parser looks at the kinds and the literals of tokens only, so moving the tokens to other
places moves those of the tree and of the complaints, and changes nothing else.  It gives up
at a depth that is too small, and apart from that the depth does not matter.

Both are one statement about a parser and another one that is run on moved tokens: where the
first one gives something, the second one gives the same, moved.

## Main definitions

* `Relocation` — a change of the places of tokens.
* `Parser.Carries` — one parser does on moved tokens what another one does.

## Main results

* `carries_bind`, `carries_demand`, `carries_iterate` — the combinators.
* `carries_expression` — expressions, at a depth that is no smaller.
* `parse_of_le` — a greater depth does not change what is read.
-/

namespace Monkey

/-- A change of tokens that keeps their kinds and their literals. -/
structure Relocation where
  move : Token → Token
  kind_move (t : Token) : (move t).kind = t.kind
  literal_move (t : Token) : (move t).literal = t.literal

attribute [simp] Relocation.kind_move Relocation.literal_move

/-- Nothing is moved. -/
def Relocation.stay : Relocation := ⟨id, fun _ => rfl, fun _ => rfl⟩

/-! ### Moving what is read -/

namespace Node

variable {f : Token → Token}

theorem mapTokensAll_eq_map (ns : List Node) : mapTokensAll f ns = ns.map (mapTokens f) := by
  induction ns with
  | nil => rfl
  | cons n ns ih => rw [mapTokensAll, List.map_cons, ih]

theorem mapTokensPairs_eq_map (ps : List (Node × Node)) :
    mapTokensPairs f ps = ps.map (Prod.map (mapTokens f) (mapTokens f)) := by
  induction ps with
  | nil => rfl
  | cons p ps ih => rw [mapTokensPairs, List.map_cons, ih, Prod.map]

@[simp] theorem isMissing_mapTokens (n : Node) : (mapTokens f n).isMissing = n.isMissing := by
  cases n <;> rfl

@[simp] theorem isPresent_mapTokens (n : Node) : (mapTokens f n).isPresent = n.isPresent := by
  rw [isPresent, isPresent, isMissing_mapTokens]

mutual

theorem mapTokens_id (n : Node) : mapTokens id n = n := by
  cases n <;>
    simp only [mapTokens, id, mapTokens_id, mapTokensAll_id, mapTokensPairs_id]

theorem mapTokensAll_id (ns : List Node) : mapTokensAll id ns = ns := by
  cases ns with
  | nil => rfl
  | cons n ns => rw [mapTokensAll, mapTokens_id, mapTokensAll_id]

theorem mapTokensPairs_id (ps : List (Node × Node)) : mapTokensPairs id ps = ps := by
  cases ps with
  | nil => rfl
  | cons p ps => rw [mapTokensPairs, mapTokens_id, mapTokens_id, mapTokensPairs_id]

end

end Node

/-- A complaint with its token moved. -/
def Complaint.mapToken (f : Token → Token) : Complaint → Complaint
  | expected wanted got => expected wanted (got.map f)
  | noOperand got => noOperand (got.map f)
  | badInteger got => badInteger (f got)

theorem Complaint.mapToken_id : mapToken id = id := by
  funext c
  cases c <;> simp only [mapToken, Option.map_id, id]

theorem Complaint.kindOf_map (f : Relocation) (t : Option Token) :
    kindOf (t.map f.move) = kindOf t := by
  cases t with
  | none => rfl
  | some t => exact f.kind_move t

theorem Complaint.message_mapToken (f : Relocation) (c : Complaint) :
    (c.mapToken f.move).message = c.message := by
  unfold mapToken message
  cases c with
  | expected wanted got => dsimp only; rw [kindOf_map]
  | noOperand got => dsimp only; rw [kindOf_map]
  | badInteger got => dsimp only; rw [f.literal_move]

/-- The wordings of complaints do not tell places. -/
theorem Complaint.map_message_map (f : Relocation) (cs : List Complaint) :
    (cs.map (mapToken f.move)).map message = cs.map message := by
  rw [List.map_map]
  exact List.map_congr_left fun c _ => message_mapToken f c

/-- A reading with its complaints moved and its value changed accordingly. -/
def Reading.mapTokens {α β : Type} (f : Token → Token) (g : α → β) (r : Reading α) :
    Reading β :=
  ⟨g r.value, r.count, r.complaints.map (Complaint.mapToken f)⟩

namespace Parser

variable {α β γ δ σ τ : Type} {f : Relocation}

/-- Where `p` gives something, `q` gives the same on moved tokens, moved by `g`. -/
def Carries (f : Relocation) (g : α → β) (p : Parser α) (q : Parser β) : Prop :=
  ∀ ts r, p ts = some r → q (ts.map f.move) = some (r.mapTokens f.move g)

/-! ### Combinators -/

theorem carries_pure {g : α → β} {a : α} {b : β} (h : b = g a) :
    Carries f g (pure a) (pure b) := by
  rintro ts _ ⟨⟩
  rw [h]
  rfl

theorem carries_bind {g : α → β} {h : γ → δ} {p : Parser α} {q : Parser β}
    {k : α → Parser γ} {l : β → Parser δ} (hp : Carries f g p q)
    (hk : ∀ a, Carries f h (k a) (l (g a))) : Carries f h (p >>= k) (q >>= l) := by
  intro ts r hr
  rw [bind_apply] at hr
  split at hr
  · contradiction
  · next r₁ h₁ =>
    obtain ⟨r₂, h₂, rfl⟩ := Option.map_eq_some_iff.mp hr
    -- what is left over is moved as a whole
    have h₂' := hk _ _ _ h₂
    rw [List.map_drop] at h₂'
    rw [bind_apply, hp ts r₁ h₁]
    simp only [Reading.mapTokens, Reading.followedBy] at h₂' ⊢
    rw [h₂', Option.map_some, List.map_append]
    rfl

theorem carries_ite {g : α → β} {c : Prop} [Decidable c] {p p' : Parser α} {q q' : Parser β}
    (h : c → Carries f g p q) (h' : ¬ c → Carries f g p' q') :
    Carries f g (if c then p else p') (if c then q else q') := by
  split
  · next hc => exact h hc
  · next hc => exact h' hc

theorem carries_tooDeep {g : α → β} {q : Parser β} : Carries f g tooDeep q := by
  rintro ts r ⟨⟩

theorem carries_current : Carries f (Option.map f.move) current current := by
  rintro ts _ ⟨⟩
  rw [current, List.head?_map]
  rfl

theorem carries_upcoming : Carries f (Option.map f.move) upcoming upcoming := by
  rintro ts _ ⟨⟩
  rw [upcoming, ← List.map_tail, List.head?_map]
  rfl

theorem carries_upcomingKind : Carries f id upcomingKind upcomingKind :=
  carries_bind carries_upcoming fun t => carries_pure (Complaint.kindOf_map f t)

theorem carries_advance : Carries f id advance advance := by
  rintro ts _ ⟨⟩
  rw [advance, List.isEmpty_map]
  rfl

theorem carries_complain {c : Complaint} :
    Carries f id (complain c) (complain (c.mapToken f.move)) := by
  rintro ts _ ⟨⟩
  rfl

theorem carries_expect {wanted : Token.Kind} :
    Carries f (Option.map f.move) (expect wanted) (expect wanted) := by
  refine carries_bind carries_upcoming fun t => ?_
  rw [Complaint.kindOf_map]
  refine carries_ite (fun _ => ?_) fun _ => ?_
  · exact carries_bind carries_advance fun _ => carries_pure rfl
  · exact carries_bind carries_complain fun _ => carries_pure rfl

theorem carries_demand {g : α → β} {wanted : Token.Kind} {a : α} {b : β} {p : Token → Parser α}
    {q : Token → Parser β} (h : b = g a) (hp : ∀ t, Carries f g (p t) (q (f.move t))) :
    Carries f g (demand wanted a p) (demand wanted b q) := by
  refine carries_bind carries_expect fun t => ?_
  cases t with
  | none => exact carries_pure h
  | some t => exact hp t

theorem carries_iterate {g : σ → τ} {h : α → β} {step : σ → Parser (σ ⊕ α)}
    {step' : τ → Parser (τ ⊕ β)} (hs : ∀ s, Carries f (Sum.map g h) (step s) (step' (g s)))
    (s : σ) : Carries f h (iterate step s) (iterate step' (g s)) := by
  intro ts
  -- each round leaves fewer tokens, and both loops leave as many
  induction hn : ts.length using Nat.strongRecOn generalizing s ts with
  | ind n ih =>
    intro r hr
    rw [iterate_apply] at hr
    split at hr
    · contradiction
    · next a count complaints h₁ =>
      obtain rfl := Option.some.inj hr
      exact iterate_of_inr (hs s ts _ h₁)
    · next s₁ count complaints h₁ =>
      split at hr
      · next progress =>
        obtain ⟨r₂, h₂, rfl⟩ := Option.map_eq_some_iff.mp hr
        have shorter : (ts.drop count).length < n := by
          have := List.length_pos_iff.mpr progress.1
          rw [List.length_drop]
          omega
        have h₂' := ih _ shorter s₁ _ rfl r₂ h₂
        rw [List.map_drop] at h₂'
        rw [iterate_of_inl (hs s ts _ h₁) (by simpa using progress.1) progress.2, h₂',
          Option.map_some]
        simp only [Reading.mapTokens, Reading.followedBy, List.map_append]
      · contradiction

end Parser

namespace Parse

open Monkey.Parser Node

variable {f : Relocation} {E E' : Expressions} {t : Token}

/-- The constructs are over expressions that are carried already. -/
def CarriesAll (f : Relocation) (E E' : Expressions) : Prop :=
  ∀ level, Carries f (mapTokens f.move) (E level) (E' level)

/-! ### Statements -/

theorem carries_optionalSemicolon : Carries f id optionalSemicolon optionalSemicolon := by
  refine carries_bind carries_upcomingKind fun kind => carries_ite (fun _ => ?_) fun _ => ?_
  · exact carries_advance
  · exact carries_pure rfl

theorem carries_letStatement (hE : CarriesAll f E E') :
    Carries f (mapTokens f.move) (letStatement E t) (letStatement E' (f.move t)) := by
  refine carries_demand rfl fun name => carries_demand rfl fun _ => ?_
  refine carries_bind carries_advance fun _ => carries_bind (hE .lowest) fun value => ?_
  refine carries_bind carries_optionalSemicolon fun _ => carries_pure ?_
  rw [mapTokens, mapTokens, f.literal_move]

theorem carries_returnStatement (hE : CarriesAll f E E') :
    Carries f (mapTokens f.move) (returnStatement E t) (returnStatement E' (f.move t)) := by
  refine carries_bind carries_advance fun _ => carries_bind (hE .lowest) fun value => ?_
  exact carries_bind carries_optionalSemicolon fun _ => carries_pure rfl

theorem carries_expressionStatement (hE : CarriesAll f E E') :
    Carries f (mapTokens f.move) (expressionStatement E t) (expressionStatement E' (f.move t)) := by
  refine carries_bind (hE .lowest) fun value => ?_
  exact carries_bind carries_optionalSemicolon fun _ => carries_pure rfl

theorem carries_statement (hE : CarriesAll f E E') :
    Carries f (mapTokens f.move) (statement E t) (statement E' (f.move t)) := by
  unfold statement
  rw [f.kind_move]
  split
  · exact carries_letStatement hE
  · exact carries_returnStatement hE
  · exact carries_expressionStatement hE

theorem addPresent_map (ns : List Node) (n : Node) :
    addPresent (ns.map (mapTokens f.move)) (mapTokens f.move n) =
      (addPresent ns n).map (mapTokens f.move) := by
  unfold addPresent
  rw [isPresent_mapTokens]
  split <;> rfl

theorem carries_moreStatements (hE : CarriesAll f E E') (ends : Token.Kind → Bool)
    (ns : List Node) :
    Carries f (Sum.map (List.map (mapTokens f.move)) (List.map (mapTokens f.move)))
      (moreStatements E ends ns) (moreStatements E' ends (ns.map (mapTokens f.move))) := by
  refine carries_bind carries_current fun token => ?_
  cases token with
  | none => exact carries_pure (congrArg Sum.inr (List.map_reverse).symm)
  | some token =>
    simp only [Option.map_some, f.kind_move]
    refine carries_ite (fun _ => ?_) fun _ => ?_
    · exact carries_pure (congrArg Sum.inr (List.map_reverse).symm)
    · refine carries_bind (carries_statement hE) fun s => carries_bind carries_advance fun _ => ?_
      exact carries_pure (congrArg Sum.inl (addPresent_map ns s))

theorem carries_program (hE : CarriesAll f E E') :
    Carries f (mapTokens f.move) (program E) (program E') := by
  refine carries_bind (carries_iterate (carries_moreStatements hE _) []) fun ns => ?_
  exact carries_pure (by rw [mapTokens, mapTokensAll_eq_map])

theorem carries_block (hE : CarriesAll f E E') :
    Carries f (mapTokens f.move) (block E t) (block E' (f.move t)) := by
  refine carries_bind carries_advance fun _ => ?_
  refine carries_bind (carries_iterate (carries_moreStatements hE _) []) fun ns => ?_
  exact carries_pure (by rw [mapTokens, mapTokensAll_eq_map])

/-! ### Lists -/

theorem carries_moreItems (hE : CarriesAll f E E') (close : Token.Kind) (ns : List Node) :
    Carries f (Sum.map (List.map (mapTokens f.move)) (Option.map (List.map (mapTokens f.move))))
      (moreItems E close ns) (moreItems E' close (ns.map (mapTokens f.move))) := by
  refine carries_bind carries_upcomingKind fun kind => carries_ite (fun _ => ?_) fun _ => ?_
  · refine carries_bind carries_advance fun _ => carries_bind carries_advance fun _ => ?_
    refine carries_bind (hE .lowest) fun item => ?_
    exact carries_pure (congrArg Sum.inl (addPresent_map ns item))
  · refine carries_demand rfl fun _ => ?_
    exact carries_pure (congrArg (Sum.inr ∘ some) (List.map_reverse).symm)

theorem carries_items (hE : CarriesAll f E E') (close : Token.Kind) :
    Carries f (Option.map (List.map (mapTokens f.move))) (items E close) (items E' close) := by
  refine carries_bind carries_upcomingKind fun kind => carries_ite (fun _ => ?_) fun _ => ?_
  · exact carries_bind carries_advance fun _ => carries_pure rfl
  · refine carries_bind carries_advance fun _ => carries_bind (hE .lowest) fun first => ?_
    have h := carries_iterate (carries_moreItems hE close) (addPresent [] first)
    rw [← addPresent_map] at h
    exact h

theorem carries_moreParameters (ns : List Node) :
    Carries f (Sum.map (List.map (mapTokens f.move)) (Option.map (List.map (mapTokens f.move))))
      (moreParameters ns) (moreParameters (ns.map (mapTokens f.move))) := by
  refine carries_bind carries_upcomingKind fun kind => carries_ite (fun _ => ?_) fun _ => ?_
  · refine carries_bind carries_advance fun _ => carries_demand rfl fun name => carries_pure ?_
    rw [f.literal_move]
    rfl
  · refine carries_demand rfl fun _ => ?_
    exact carries_pure (congrArg (Sum.inr ∘ some) (List.map_reverse).symm)

theorem carries_parameters :
    Carries f (Option.map (List.map (mapTokens f.move))) parameters parameters := by
  refine carries_bind carries_upcomingKind fun kind => carries_ite (fun _ => ?_) fun _ => ?_
  · exact carries_bind carries_advance fun _ => carries_pure rfl
  · refine carries_demand rfl fun name => ?_
    rw [f.literal_move]
    exact carries_iterate carries_moreParameters [.identifier name name.literal]

theorem carries_morePairs (hE : CarriesAll f E E') (ps : List (Node × Node)) :
    Carries f
      (Sum.map (List.map (Prod.map (mapTokens f.move) (mapTokens f.move)))
        (Option.map (List.map (Prod.map (mapTokens f.move) (mapTokens f.move)))))
      (morePairs E ps)
      (morePairs E' (ps.map (Prod.map (mapTokens f.move) (mapTokens f.move)))) := by
  refine carries_bind carries_upcomingKind fun kind => carries_ite (fun _ => ?_) fun _ => ?_
  · refine carries_bind carries_advance fun _ => ?_
    exact carries_pure (congrArg (Sum.inr ∘ some) (List.map_reverse).symm)
  · refine carries_bind carries_advance fun _ => carries_bind (hE .lowest) fun key => ?_
    refine carries_demand rfl fun _ => carries_bind carries_advance fun _ => ?_
    refine carries_bind (hE .lowest) fun value => ?_
    rw [isMissing_mapTokens, isMissing_mapTokens]
    refine carries_ite (fun _ => carries_pure rfl) fun _ => ?_
    refine carries_bind carries_upcomingKind fun kind => carries_ite (fun _ => ?_) fun _ => ?_
    · exact carries_pure rfl
    · exact carries_demand rfl fun _ => carries_pure rfl

/-! ### Operands and operators -/

theorem carries_integer :
    Carries f (mapTokens f.move) (integer t) (integer (f.move t)) := by
  unfold integer
  rw [f.literal_move]
  split
  · exact carries_pure rfl
  · exact carries_bind carries_complain fun _ => carries_pure rfl

theorem carries_prefixed (hE : CarriesAll f E E') :
    Carries f (mapTokens f.move) (prefixed E t) (prefixed E' (f.move t)) := by
  refine carries_bind carries_advance fun _ => carries_bind (hE .prefixed) fun right => ?_
  exact carries_pure (by rw [mapTokens, f.literal_move])

theorem carries_grouped (hE : CarriesAll f E E') :
    Carries f (mapTokens f.move) (grouped E) (grouped E') := by
  refine carries_bind carries_advance fun _ => carries_bind (hE .lowest) fun inner => ?_
  exact carries_demand rfl fun _ => carries_pure rfl

theorem carries_conditional (hE : CarriesAll f E E') :
    Carries f (mapTokens f.move) (conditional E t) (conditional E' (f.move t)) := by
  refine carries_demand rfl fun _ => carries_bind carries_advance fun _ => ?_
  refine carries_bind (hE .lowest) fun condition => carries_demand rfl fun _ => ?_
  refine carries_demand rfl fun brace => carries_bind (carries_block hE) fun consequence => ?_
  refine carries_bind carries_upcomingKind fun kind => carries_ite (fun _ => ?_) fun _ => ?_
  · refine carries_bind carries_advance fun _ => carries_demand rfl fun brace => ?_
    exact carries_bind (carries_block hE) fun alternative => carries_pure rfl
  · exact carries_pure rfl

theorem carries_function (hE : CarriesAll f E E') :
    Carries f (mapTokens f.move) (function E t) (function E' (f.move t)) := by
  refine carries_demand rfl fun _ => carries_bind carries_parameters fun names => ?_
  cases names with
  | none => exact carries_pure rfl
  | some names =>
    refine carries_demand rfl fun brace => carries_bind (carries_block hE) fun body => ?_
    exact carries_pure (by rw [mapTokens, mapTokensAll_eq_map])

theorem carries_array (hE : CarriesAll f E E') :
    Carries f (mapTokens f.move) (array E t) (array E' (f.move t)) := by
  refine carries_bind (carries_items hE _) fun elements => ?_
  cases elements with
  | none => exact carries_pure rfl
  | some elements => exact carries_pure (by rw [mapTokens, mapTokensAll_eq_map])

theorem carries_hash (hE : CarriesAll f E E') :
    Carries f (mapTokens f.move) (hash E t) (hash E' (f.move t)) := by
  refine carries_bind (carries_iterate (carries_morePairs hE) []) fun pairs => ?_
  cases pairs with
  | none => exact carries_pure rfl
  | some pairs => exact carries_pure (by rw [mapTokens, mapTokensPairs_eq_map])

/-- A token begins the same construct wherever it stands. -/
theorem carries_operand? (hE : CarriesAll f E E') :
    (operand? E t = none ∧ operand? E' (f.move t) = none) ∨
      ∃ p q, operand? E t = some p ∧ operand? E' (f.move t) = some q ∧
        Carries f (mapTokens f.move) p q := by
  -- which construct begins depends on the kind alone
  unfold operand?
  rw [f.kind_move, f.literal_move]
  split
  case h_13 => exact .inl ⟨rfl, rfl⟩
  all_goals refine .inr ⟨_, _, rfl, rfl, ?_⟩
  case h_1 | h_3 | h_4 | h_5 => exact carries_pure rfl
  case h_2 => exact carries_integer
  case h_6 | h_7 => exact carries_prefixed hE
  case h_8 => exact carries_grouped hE
  case h_9 => exact carries_conditional hE
  case h_10 => exact carries_function hE
  case h_11 => exact carries_array hE
  case h_12 => exact carries_hash hE

theorem carries_extend (hE : CarriesAll f E E') (left : Node) :
    Carries f (mapTokens f.move) (extend E left t)
      (extend E' (mapTokens f.move left) (f.move t)) := by
  unfold extend
  rw [f.kind_move]
  split
  · refine carries_bind (carries_items hE _) fun arguments => ?_
    cases arguments with
    | none => exact carries_pure rfl
    | some arguments => exact carries_pure (by rw [mapTokens, mapTokensAll_eq_map])
  · refine carries_bind carries_advance fun _ => carries_bind (hE .lowest) fun subscript => ?_
    exact carries_demand rfl fun _ => carries_pure rfl
  · refine carries_bind carries_advance fun _ => carries_bind (hE _) fun right => ?_
    exact carries_pure (by rw [mapTokens, f.literal_move])

theorem carries_climb (hE : CarriesAll f E E') (level : Level) (left : Node) :
    Carries f (Sum.map (mapTokens f.move) (mapTokens f.move)) (climb E level left)
      (climb E' level (mapTokens f.move left)) := by
  refine carries_bind carries_upcoming fun token => ?_
  cases token with
  | none => exact carries_pure rfl
  | some token =>
    simp only [Option.map_some, f.kind_move]
    refine carries_ite (fun _ => ?_) fun _ => carries_pure rfl
    refine carries_bind carries_advance fun _ => carries_bind (carries_extend hE left) fun n => ?_
    exact carries_pure rfl

/-! ### Programs -/

/-- Expressions are carried to every depth that is no smaller. -/
theorem carries_expression (f : Relocation) {depth depth' : Nat} (hle : depth ≤ depth') :
    CarriesAll f (expression depth) (expression depth') := by
  induction depth generalizing depth' with
  | zero => exact fun _ => carries_tooDeep
  | succ depth ih =>
    obtain ⟨depth', rfl⟩ := Nat.exists_eq_add_one_of_ne_zero (Nat.ne_zero_of_lt hle)
    have hE := ih (Nat.le_of_succ_le_succ hle)
    -- either the token begins no expression in both, or the same construct in both
    intro level
    refine carries_bind carries_current fun token => ?_
    cases token with
    | none => exact carries_bind carries_complain fun _ => carries_pure rfl
    | some token =>
      rcases carries_operand? (t := token) hE with ⟨h, h'⟩ | ⟨p, q, h, h', hp⟩
      · simp only [Option.map_some, Option.bind_some, h, h']
        exact carries_bind carries_complain fun _ => carries_pure rfl
      · simp only [Option.map_some, Option.bind_some, h, h']
        exact carries_bind hp fun left => carries_iterate (carries_climb hE level) left

end Parse

/-- What is read of a text is read of its tokens wherever they are moved, at every greater
depth. -/
theorem exists_program_of_parse {text : String} {depth depth' : Nat} {p : Parsed} (f : Relocation)
    (h : parse depth text = some p) (hle : depth ≤ depth') :
    ∃ count, Parse.program (Parse.expression depth') ((tokens text).map f.move) =
      some ⟨p.program.mapTokens f.move, count, p.complaints.map (Complaint.mapToken f.move)⟩ := by
  obtain ⟨r, hr, rfl⟩ := Option.map_eq_some_iff.mp h
  exact ⟨r.count, Parse.carries_program (Parse.carries_expression f hle) _ r hr⟩

/-- A greater depth does not change what is read. -/
theorem parse_of_le {text : String} {depth depth' : Nat} {p : Parsed}
    (h : parse depth text = some p) (hle : depth ≤ depth') : parse depth' text = some p := by
  -- the relocation that leaves every token where it is carries from depth to depth
  obtain ⟨count, key⟩ := exists_program_of_parse .stay h hle
  have hid : List.map Relocation.stay.move (tokens text) = tokens text := List.map_id _
  rw [hid] at key
  rw [parse, key]
  simp only [Relocation.stay, Node.mapTokens_id, Complaint.mapToken_id, Option.map_some,
    List.map_id]

end Monkey
