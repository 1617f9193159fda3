import Monkey.Syntax.Obstacle
import Monkey.Syntax.Parse

/-!
# The trees that the parser gives

A text may break off anywhere, and the parser gives a tree all the same: a part that could not be
read is missing.  But a list has no missing item, what is bound to a value or an argument is a
name, and there is no node without a kind.  Such a tree can be shown, unless it has too many
levels.

## Main definitions

* `Node.Regular` — the trees with parts missing only where they may be.
* `Parser.Gives` — all that a parser gives is of some sort, whatever it complains about.

## Main results

* `Node.Regular.textObstacle`, `Node.Regular.outlineObstacle` — only the depth can stop a regular
  tree from being shown, and only down to its size.
* `regular_of_parse` — every text is read as a regular tree, complaints or not.
-/

namespace Monkey

namespace Node

/-! ### Regular trees -/

/-- The trees in which parts are missing at most where a construct has a place for them: items of
lists are there, and names are bound. -/
inductive Regular : Node → Prop
  | missing : Regular missing
  | program {statements : List Node} (present : ∀ n ∈ statements, n.isPresent)
    (items : ∀ n ∈ statements, Regular n) : Regular (program statements)
  | letStatement (token name : Token) (x : String) {value : Node} (value_regular : Regular value) :
    Regular (letStatement token (identifier name x) value)
  | returnStatement (token : Token) {value : Node} (value_regular : Regular value) :
    Regular (returnStatement token value)
  | expressionStatement (token : Token) {expression : Node} (regular : Regular expression) :
    Regular (expressionStatement token expression)
  | block (token : Token) {statements : List Node} (present : ∀ n ∈ statements, n.isPresent)
    (items : ∀ n ∈ statements, Regular n) : Regular (block token statements)
  | identifier (token : Token) (name : String) : Regular (identifier token name)
  | integer (token : Token) (value : Int) : Regular (integer token value)
  | boolean (token : Token) (value : Bool) : Regular (boolean token value)
  | string (token : Token) (value : String) : Regular (string token value)
  | prefixed (token : Token) (operator : String) {right : Node} (right_regular : Regular right) :
    Regular (prefixed token operator right)
  | infixed (token : Token) (operator : String) {left right : Node}
    (left_regular : Regular left) (right_regular : Regular right) :
    Regular (infixed token left operator right)
  | conditional (token : Token) {condition consequence alternative : Node}
    (condition_regular : Regular condition) (consequence_regular : Regular consequence)
    (alternative_regular : Regular alternative) :
    Regular (conditional token condition consequence alternative)
  | function (token : Token) {parameters : List Node} {body : Node}
    (names : ∀ n ∈ parameters, n.kind = .identifier) (body_regular : Regular body) :
    Regular (function token parameters body)
  | call (token : Token) {callee : Node} {arguments : List Node} (callee_regular : Regular callee)
    (present : ∀ n ∈ arguments, n.isPresent) (items : ∀ n ∈ arguments, Regular n) :
    Regular (call token callee arguments)
  | array (token : Token) {elements : List Node} (present : ∀ n ∈ elements, n.isPresent)
    (items : ∀ n ∈ elements, Regular n) : Regular (array token elements)
  | hash (token : Token) {pairs : List (Node × Node)}
    (present : ∀ p ∈ pairs, p.1.isPresent ∧ p.2.isPresent) (keys : ∀ p ∈ pairs, Regular p.1)
    (values : ∀ p ∈ pairs, Regular p.2) : Regular (hash token pairs)
  | index (token : Token) {left subscript : Node} (left_regular : Regular left)
    (subscript_regular : Regular subscript) : Regular (index token left subscript)

variable {n : Node}

theorem exists_identifier_of_kind (h : n.kind = .identifier) :
    ∃ token name, n = .identifier token name := by
  cases n with
  | identifier token name => exact ⟨token, name, rfl⟩
  | _ => cases h

theorem regular_of_kind (h : n.kind = .identifier) : n.Regular := by
  obtain ⟨token, name, rfl⟩ := exists_identifier_of_kind h
  exact .identifier token name

theorem isPresent_of_kind (h : n.kind = .identifier) : n.isPresent := by
  obtain ⟨token, name, rfl⟩ := exists_identifier_of_kind h
  rfl

/-! ### What can stop a regular tree from being shown -/

theorem mem_children_of_mem_textParts {m : Node} (h : m ∈ n.textParts) : m ∈ n.children := by
  cases n with
  | call token callee arguments => exact List.mem_append.mpr (List.mem_append.mp h).symm
  | _ => exact h

theorem Regular.children (h : n.Regular) : ∀ m ∈ n.children, m.Regular := by
  intro m hm
  cases h with
  | missing | identifier | integer | boolean | string => cases hm
  | program _ items | block _ _ items | array _ _ items => exact items m hm
  | letStatement token name x hv =>
    obtain ⟨hm, -⟩ := List.mem_filter.mp hm
    rcases List.mem_cons.mp hm with rfl | hm
    · exact .identifier name x
    · exact List.mem_singleton.mp hm ▸ hv
  | returnStatement _ hv | expressionStatement _ hv | prefixed _ _ hv =>
    obtain ⟨hm, -⟩ := List.mem_filter.mp hm
    exact List.mem_singleton.mp hm ▸ hv
  | infixed _ _ hl hr | index _ hl hr =>
    obtain ⟨hm, -⟩ := List.mem_filter.mp hm
    rcases List.mem_cons.mp hm with rfl | hm
    · exact hl
    · exact List.mem_singleton.mp hm ▸ hr
  | conditional _ hc hq ha =>
    obtain ⟨hm, -⟩ := List.mem_filter.mp hm
    rcases List.mem_cons.mp hm with rfl | hm
    · exact hc
    rcases List.mem_cons.mp hm with rfl | hm
    · exact hq
    · exact List.mem_singleton.mp hm ▸ ha
  | function _ names hb =>
    rcases List.mem_append.mp hm with hm | hm
    · exact regular_of_kind (names m hm)
    · exact List.mem_singleton.mp (List.mem_filter.mp hm).1 ▸ hb
  | call _ hc _ items =>
    rcases List.mem_append.mp hm with hm | hm
    · exact List.mem_singleton.mp (List.mem_filter.mp hm).1 ▸ hc
    · exact items m hm
  | hash _ _ keys values =>
    obtain ⟨p, hp, hm⟩ := List.mem_flatMap.mp hm
    rcases List.mem_cons.mp hm with rfl | hm
    · exact keys p hp
    · exact List.mem_singleton.mp hm ▸ values p hp

/-- A child that is shown is there. -/
theorem Regular.children_present (h : n.Regular) : ∀ m ∈ n.children, m.isPresent := by
  intro m hm
  cases h with
  | missing | identifier | integer | boolean | string => cases hm
  | program present | block _ present | array _ present => exact present m hm
  | letStatement | returnStatement | expressionStatement | prefixed | infixed | index
  | conditional => exact (List.mem_filter.mp hm).2
  | function _ names =>
    rcases List.mem_append.mp hm with hm | hm
    · exact isPresent_of_kind (names m hm)
    · exact (List.mem_filter.mp hm).2
  | call _ _ present =>
    rcases List.mem_append.mp hm with hm | hm
    · exact (List.mem_filter.mp hm).2
    · exact present m hm
  | hash _ present =>
    obtain ⟨p, hp, hm⟩ := List.mem_flatMap.mp hm
    rcases List.mem_cons.mp hm with rfl | hm
    · exact (present p hp).1
    · exact List.mem_singleton.mp hm ▸ (present p hp).2

/-- A regular tree that is there can be written, except at a depth no greater than its size. -/
theorem Regular.textObstacle {depth : Nat} {why : Stop} (h : n.Regular) (hn : n.isPresent)
    (stopped : n.textObstacle? depth = some why) : why = .tooDeep ∧ depth ≤ sizeOf n := by
  induction depth generalizing n why with
  | zero =>
    refine ⟨?_, Nat.zero_le _⟩
    cases h with
    | missing => cases hn
    | _ => exact (Option.some.inj stopped).symm
  | succ depth ih =>
    have hparts : n.textParts.findSome? (Node.textObstacle? depth) = some why := by
      cases h with
      | missing => cases hn
      | _ => exact stopped
    obtain ⟨m, hm, hstopped⟩ := List.exists_of_findSome?_eq_some hparts
    have hm := mem_children_of_mem_textParts hm
    obtain ⟨rfl, hd⟩ := ih (h.children m hm) (h.children_present m hm) hstopped
    exact ⟨rfl, Nat.lt_of_le_of_lt hd (sizeOf_lt_of_mem_children hm)⟩

/-- A regular tree can be outlined, except at a depth no greater than its size. -/
theorem Regular.outlineObstacle {depth : Nat} {why : Stop} (h : n.Regular)
    (stopped : n.outlineObstacle? depth = some why) : why = .tooDeep ∧ depth ≤ sizeOf n := by
  induction depth generalizing n why with
  | zero =>
    refine ⟨?_, Nat.zero_le _⟩
    cases h with
    | missing => cases stopped
    | _ => exact (Option.some.inj stopped).symm
  | succ depth ih =>
    have hchildren : n.children.findSome? (Node.outlineObstacle? depth) = some why := by
      cases h with
      | missing => cases stopped
      | _ => exact stopped
    obtain ⟨m, hm, hstopped⟩ := List.exists_of_findSome?_eq_some hchildren
    obtain ⟨rfl, hd⟩ := ih (h.children m hm) hstopped
    exact ⟨rfl, Nat.lt_of_le_of_lt hd (sizeOf_lt_of_mem_children hm)⟩

end Node

/-! ### What a parser gives -/

namespace Parser

variable {α β σ : Type} {P : α → Prop} {Q : β → Prop}

/-- All that the parser gives is of `P`, whatever it complains about. -/
def Gives (P : α → Prop) (p : Parser α) : Prop :=
  ∀ ts r, p ts = some r → P r.value

theorem gives_any (p : Parser α) : Gives (fun _ => True) p :=
  fun _ _ _ => trivial

theorem gives_pure {a : α} (h : P a) : Gives P (pure a) := by
  rintro ts r hr
  cases hr
  exact h

theorem gives_bind {p : Parser α} {k : α → Parser β} (hp : Gives P p)
    (hk : ∀ a, P a → Gives Q (k a)) : Gives Q (p >>= k) := by
  intro ts r hr
  rw [bind_apply] at hr
  split at hr
  · cases hr
  · next r₁ h₁ =>
    obtain ⟨r₂, h₂, rfl⟩ := Option.map_eq_some_iff.mp hr
    exact hk _ (hp ts r₁ h₁) _ r₂ h₂

/-- What a part gives may not matter. -/
theorem gives_seq {p : Parser α} {k : α → Parser β} (hk : ∀ a, Gives Q (k a)) :
    Gives Q (p >>= k) :=
  gives_bind (gives_any p) fun a _ => hk a

theorem gives_ite {c : Prop} [Decidable c] {p q : Parser α} (hp : Gives P p) (hq : Gives P q) :
    Gives P (if c then p else q) := by
  split
  · exact hp
  · exact hq

theorem gives_demand {wanted : Token.Kind} {other : α} {p : Token → Parser α} (h : P other)
    (hp : ∀ t, Gives P (p t)) : Gives P (demand wanted other p) := by
  refine gives_seq fun t => ?_
  cases t with
  | some t => exact hp t
  | none => exact gives_pure h

/-- What a loop gives, from what each step keeps. -/
theorem gives_iterate {J : σ → Prop} {step : σ → Parser (σ ⊕ α)}
    (hstep : ∀ s, J s → Gives (Sum.elim J P) (step s)) (s : σ) (hs : J s) :
    Gives P (iterate step s) := by
  intro ts r hr
  induction hn : ts.length using Nat.strongRecOn generalizing s ts r with
  | ind n ih =>
    rw [iterate_apply] at hr
    split at hr
    · cases hr
    · next a count complaints h =>
      cases hr
      exact hstep s hs ts _ h
    · next s' count complaints h =>
      split at hr
      · next progress =>
        obtain ⟨q, hq, rfl⟩ := Option.map_eq_some_iff.mp hr
        have hlength := List.length_pos_iff.mpr progress.1
        exact ih _ (by rw [List.length_drop]; omega) s' (hstep s hs ts _ h) _ q hq rfl
      · cases hr

end Parser

namespace Parse

open Monkey.Parser Node

variable {E : Expressions} {t : Token}

/-- Expressions of every level are regular. -/
def RegularAll (E : Expressions) : Prop := ∀ level, Gives Regular (E level)

/-- Items that are there, and regular. -/
def Items (ns : List Node) : Prop := ∀ n ∈ ns, n.isPresent ∧ n.Regular

/-- Pairs whose keys and values are there, and regular. -/
def Pairs (ps : List (Node × Node)) : Prop :=
  ∀ p ∈ ps, (p.1.isPresent ∧ p.2.isPresent) ∧ p.1.Regular ∧ p.2.Regular

/-- Names. -/
def Names (ns : List Node) : Prop := ∀ n ∈ ns, n.kind = .identifier

theorem items_addPresent {n : Node} {ns : List Node} (hns : Items ns) (hn : n.Regular) :
    Items (addPresent ns n) := by
  unfold addPresent
  split
  · next h => exact List.forall_mem_cons.mpr ⟨⟨h, hn⟩, hns⟩
  · exact hns

theorem forall_mem_reverse {α : Type} {P : α → Prop} {l : List α} (h : ∀ a ∈ l, P a) :
    ∀ a ∈ l.reverse, P a :=
  fun a ha => h a (List.mem_reverse.mp ha)

/-! ### Statements -/

theorem gives_statement (hE : RegularAll E) : Gives Regular (statement E t) := by
  unfold statement
  split
  · refine gives_demand .missing fun name => gives_demand .missing fun _ => gives_seq fun _ => ?_
    exact gives_bind (hE .lowest) fun value hv => gives_seq fun _ =>
      gives_pure (.letStatement t name name.literal hv)
  · exact gives_seq fun _ => gives_bind (hE .lowest) fun value hv => gives_seq fun _ =>
      gives_pure (.returnStatement t hv)
  · exact gives_bind (hE .lowest) fun value hv => gives_seq fun _ =>
      gives_pure (.expressionStatement t hv)

theorem gives_moreStatements (hE : RegularAll E) (ends : Token.Kind → Bool) (ns : List Node)
    (hns : Items ns) : Gives (Sum.elim Items Items) (moreStatements E ends ns) := by
  have hdone : Items ns.reverse := forall_mem_reverse hns
  refine gives_seq fun token => ?_
  cases token with
  | none => exact gives_pure hdone
  | some token =>
    refine gives_ite (gives_pure hdone) ?_
    exact gives_bind (gives_statement hE) fun s hs => gives_seq fun _ =>
      gives_pure (items_addPresent hns hs)

theorem gives_block (hE : RegularAll E) : Gives Regular (block E t) := by
  refine gives_seq fun _ => ?_
  refine gives_bind (gives_iterate (gives_moreStatements hE _) [] (List.forall_mem_nil _))
    fun ns hns => ?_
  exact gives_pure (.block t (fun n hn => (hns n hn).1) fun n hn => (hns n hn).2)

theorem gives_program (hE : RegularAll E) :
    Gives (fun n => ∃ ns, n = .program ns ∧ n.Regular) (program E) := by
  refine gives_bind (gives_iterate (gives_moreStatements hE _) [] (List.forall_mem_nil _))
    fun ns hns => ?_
  exact gives_pure
    ⟨ns, rfl, .program (fun n hn => (hns n hn).1) fun n hn => (hns n hn).2⟩

/-! ### Lists -/

theorem gives_moreItems (hE : RegularAll E) (close : Token.Kind) (ns : List Node)
    (hns : Items ns) :
    Gives (Sum.elim Items fun o => ∀ ns ∈ o, Items ns) (moreItems E close ns) := by
  refine gives_seq fun kind => gives_ite ?_ ?_
  · exact gives_seq fun _ => gives_seq fun _ => gives_bind (hE .lowest) fun item hi =>
      gives_pure (items_addPresent hns hi)
  · refine gives_demand (fun _ h => nomatch h) fun _ => gives_pure fun _ h => ?_
    exact Option.some.inj h ▸ forall_mem_reverse hns

theorem gives_items (hE : RegularAll E) (close : Token.Kind) :
    Gives (fun o => ∀ ns ∈ o, Items ns) (items E close) := by
  refine gives_seq fun kind => gives_ite ?_ ?_
  · exact gives_seq fun _ => gives_pure fun _ h => Option.some.inj h ▸ List.forall_mem_nil _
  · exact gives_seq fun _ => gives_bind (hE .lowest) fun first hf =>
      gives_iterate (gives_moreItems hE close) _ (items_addPresent (List.forall_mem_nil _) hf)

theorem gives_moreParameters (ns : List Node) (hns : Names ns) :
    Gives (Sum.elim Names fun o => ∀ ns ∈ o, Names ns) (moreParameters ns) := by
  refine gives_seq fun kind => gives_ite ?_ ?_
  · exact gives_seq fun _ => gives_demand (fun _ h => nomatch h) fun t =>
      gives_pure (List.forall_mem_cons.mpr ⟨rfl, hns⟩)
  · refine gives_demand (fun _ h => nomatch h) fun _ => gives_pure fun _ h => ?_
    exact Option.some.inj h ▸ forall_mem_reverse hns

theorem gives_parameters : Gives (fun o => ∀ ns ∈ o, Names ns) parameters := by
  refine gives_seq fun kind => gives_ite ?_ ?_
  · exact gives_seq fun _ => gives_pure fun _ h => Option.some.inj h ▸ List.forall_mem_nil _
  · refine gives_demand (fun _ h => nomatch h) fun t => ?_
    exact gives_iterate gives_moreParameters _
      (List.forall_mem_cons.mpr ⟨rfl, List.forall_mem_nil _⟩)

theorem gives_morePairs (hE : RegularAll E) (ps : List (Node × Node)) (hps : Pairs ps) :
    Gives (Sum.elim Pairs fun o => ∀ ps ∈ o, Pairs ps) (morePairs E ps) := by
  refine gives_seq fun kind => gives_ite ?_ ?_
  · refine gives_seq fun _ => gives_pure fun _ h => ?_
    exact Option.some.inj h ▸ forall_mem_reverse hps
  · refine gives_seq fun _ => gives_bind (hE .lowest) fun key hk => ?_
    refine gives_demand (fun _ h => nomatch h) fun _ => gives_seq fun _ => ?_
    refine gives_bind (hE .lowest) fun value hv => ?_
    -- a pair with a missing part is not added
    by_cases missing : (key.isMissing || value.isMissing) = true
    · rw [if_pos missing]
      exact gives_pure fun _ h => nomatch h
    · have hmore : Pairs ((key, value) :: ps) := by
        simp only [Bool.or_eq_true, not_or, Bool.not_eq_true] at missing
        refine List.forall_mem_cons.mpr ⟨⟨⟨?_, ?_⟩, hk, hv⟩, hps⟩
        · rw [isPresent, missing.1]
          rfl
        · rw [isPresent, missing.2]
          rfl
      rw [if_neg missing]
      refine gives_seq fun _ => gives_ite (gives_pure hmore) ?_
      exact gives_demand (fun _ h => nomatch h) fun _ => gives_pure hmore

/-! ### Operands and operators -/

theorem gives_integer : Gives Regular (integer t) := by
  unfold integer
  split
  · exact gives_pure (.integer t _)
  · exact gives_seq fun _ => gives_pure .missing

theorem gives_conditional (hE : RegularAll E) : Gives Regular (conditional E t) := by
  refine gives_demand .missing fun _ => gives_seq fun _ => ?_
  refine gives_bind (hE .lowest) fun condition hc => gives_demand .missing fun _ => ?_
  refine gives_demand .missing fun brace => gives_bind (gives_block hE) fun consequence hq => ?_
  refine gives_seq fun kind => gives_ite ?_ (gives_pure (.conditional t hc hq .missing))
  refine gives_seq fun _ => gives_demand .missing fun brace => ?_
  exact gives_bind (gives_block hE) fun alternative ha => gives_pure (.conditional t hc hq ha)

theorem gives_function (hE : RegularAll E) : Gives Regular (function E t) := by
  refine gives_demand .missing fun _ => gives_bind gives_parameters fun names hnames => ?_
  cases names with
  | none => exact gives_pure .missing
  | some names =>
    refine gives_demand .missing fun brace => gives_bind (gives_block hE) fun body hb => ?_
    exact gives_pure (.function t (hnames names rfl) hb)

theorem gives_array (hE : RegularAll E) : Gives Regular (array E t) := by
  refine gives_bind (gives_items hE .rbracket) fun elements h => ?_
  cases elements with
  | none => exact gives_pure .missing
  | some ns =>
    exact gives_pure (.array t (fun n hn => (h ns rfl n hn).1) fun n hn => (h ns rfl n hn).2)

theorem gives_hash (hE : RegularAll E) : Gives Regular (hash E t) := by
  refine gives_bind (gives_iterate (gives_morePairs hE) [] (List.forall_mem_nil _))
    fun pairs h => ?_
  cases pairs with
  | none => exact gives_pure .missing
  | some ps =>
    exact gives_pure (.hash t (fun p hp => (h ps rfl p hp).1) (fun p hp => (h ps rfl p hp).2.1)
      fun p hp => (h ps rfl p hp).2.2)

theorem gives_operand? (hE : RegularAll E) {operand : Parser Node}
    (ho : operand? E t = some operand) : Gives Regular operand := by
  unfold operand? at ho
  split at ho <;> cases ho
  case h_1 => exact gives_pure (.identifier t _)
  case h_2 => exact gives_integer
  case h_3 => exact gives_pure (.string t _)
  case h_4 | h_5 => exact gives_pure (.boolean t _)
  case h_6 | h_7 =>
    exact gives_seq fun _ => gives_bind (hE .prefixed) fun right hr =>
      gives_pure (.prefixed t _ hr)
  case h_8 =>
    exact gives_seq fun _ => gives_bind (hE .lowest) fun inner hi =>
      gives_demand .missing fun _ => gives_pure hi
  case h_9 => exact gives_conditional hE
  case h_10 => exact gives_function hE
  case h_11 => exact gives_array hE
  case h_12 => exact gives_hash hE

theorem gives_extend (hE : RegularAll E) {left : Node} (hleft : left.Regular) :
    Gives Regular (extend E left t) := by
  unfold extend
  split
  · refine gives_bind (gives_items hE .rparen) fun arguments h => ?_
    cases arguments with
    | none => exact gives_pure .missing
    | some ns =>
      exact gives_pure (.call t hleft (fun n hn => (h ns rfl n hn).1)
        fun n hn => (h ns rfl n hn).2)
  · exact gives_seq fun _ => gives_bind (hE .lowest) fun subscript hs =>
      gives_demand .missing fun _ => gives_pure (.index t hleft hs)
  · exact gives_seq fun _ => gives_bind (hE _) fun right hr =>
      gives_pure (.infixed t _ hleft hr)

theorem gives_climb (hE : RegularAll E) (level : Level) (left : Node) (hleft : left.Regular) :
    Gives (Sum.elim Regular Regular) (climb E level left) := by
  refine gives_seq fun token => ?_
  cases token with
  | none => exact gives_pure hleft
  | some token =>
    refine gives_ite ?_ (gives_pure hleft)
    exact gives_seq fun _ => gives_bind (gives_extend hE hleft) fun n hn => gives_pure hn

theorem gives_expression (depth : Nat) : RegularAll (expression depth) := by
  induction depth with
  | zero => exact fun _ _ _ h => nomatch h
  | succ depth ih =>
    intro level
    refine gives_seq fun token => ?_
    split
    · exact gives_seq fun _ => gives_pure .missing
    · next operand ho =>
      obtain ⟨t, -, ho⟩ := Option.bind_eq_some_iff.mp ho
      exact gives_bind (gives_operand? ih ho) fun left hleft =>
        gives_iterate (gives_climb ih level) left hleft

end Parse

/-- Every text is read as a regular program, complaints or not. -/
theorem regular_of_parse {depth : Nat} {text : String} {p : Parsed}
    (h : parse depth text = some p) : ∃ ns, p.program = .program ns ∧ p.program.Regular := by
  obtain ⟨r, hr, rfl⟩ := Option.map_eq_some_iff.mp h
  exact Parse.gives_program (Parse.gives_expression depth) _ r hr

end Monkey
