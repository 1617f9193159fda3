import Monkey.Proofs.Syntax.Clean

/-!
# What each construct reads without a complaint

One equivalence for each construct of the parser: it is read without a complaint exactly
when the tokens in front are those of the construct and its parts are read without one.
Everything later is stated over these, and opens no construct again.

## Main definitions

* `pastSemicolon` — the tokens behind a semicolon that may come up.
* `binding` — how tightly what follows binds to an expression.
-/

namespace Monkey.Parse

open Monkey.Parser

variable {E : Expressions} {t : Token} {ts ts' : List Token} {n : Node}

/-! ### Statements -/

/-- Behind the semicolon, if one comes up. -/
def pastSemicolon (ts : List Token) : List Token :=
  if nextKind ts.tail = .semicolon then ts.tail else ts

/-- Behind the semicolon, if one comes first. -/
def dropSemicolon (ts : List Token) : List Token :=
  if nextKind ts = .semicolon then ts.tail else ts

theorem tail_pastSemicolon (ts : List Token) :
    (pastSemicolon ts).tail = dropSemicolon ts.tail := by
  unfold pastSemicolon dropSemicolon
  split <;> rfl

theorem yields_optionalSemicolon {u : Unit} :
    optionalSemicolon.Yields ts u ts' ↔ ts' = pastSemicolon ts := by
  simp only [optionalSemicolon, pastSemicolon, yields_bind, yields_upcomingKind, and_assoc,
    exists_and_left, exists_eq_left, yields_ite, yields_advance, yields_pure, true_and]
  split <;> rfl

theorem yields_letStatement :
    (letStatement E t).Yields ts n ts' ↔ ∃ name rest, ts.tail = name :: rest ∧
      name.kind = .ident ∧ ∃ sign rest', rest = sign :: rest' ∧ sign.kind = .assign ∧
      ∃ value cur, (E .lowest).Yields rest' value cur ∧
      n = .letStatement t (.identifier name name.literal) value ∧ ts' = pastSemicolon cur := by
  simp only [letStatement, ne_eq, reduceCtorEq, not_false_eq_true, yields_demand, yields_bind,
    yields_advance, List.tail_cons, yields_optionalSemicolon, yields_pure, exists_and_left,
    exists_eq_left, exists_const]

theorem yields_returnStatement :
    (returnStatement E t).Yields ts n ts' ↔ ∃ value cur,
      (E .lowest).Yields ts.tail value cur ∧ n = .returnStatement t value ∧
      ts' = pastSemicolon cur := by
  simp only [returnStatement, yields_bind, yields_advance, yields_optionalSemicolon, yields_pure,
    exists_and_left, exists_eq_left, exists_const]

theorem yields_expressionStatement :
    (expressionStatement E t).Yields ts n ts' ↔ ∃ value cur,
      (E .lowest).Yields ts value cur ∧ n = .expressionStatement t value ∧
      ts' = pastSemicolon cur := by
  simp only [expressionStatement, yields_bind, yields_optionalSemicolon, yields_pure,
    exists_and_left, exists_eq_left, exists_const]

/-- A list of statements ends in front of a token that ends it, or with the text. -/
theorem yields_moreStatements_inr {ends : Token.Kind → Bool} {ns ms : List Node} :
    (moreStatements E ends ns).Yields ts (.inr ms) ts' ↔
      (∀ t ∈ ts.head?, ends t.kind) ∧ ms = ns.reverse ∧ ts' = ts := by
  simp only [moreStatements, yields_bind, yields_current, and_assoc, exists_and_left,
    exists_eq_left]
  cases ts with
  | nil => simp only [List.head?_nil, yields_pure, Sum.inr.injEq, Option.not_mem_none,
      false_implies, implies_true, true_and]
  | cons t rest =>
    simp only [List.head?_cons, Option.mem_some_iff, forall_eq', yields_ite, yields_pure,
      Sum.inr.injEq, yields_bind, reduceCtorEq, false_and, and_false, exists_false,
      if_false_right]

/-- A list of statements goes on with a statement. -/
theorem yields_moreStatements_inl {ends : Token.Kind → Bool} {ns ms : List Node} :
    (moreStatements E ends ns).Yields ts (.inl ms) ts' ↔ ∃ t rest, ts = t :: rest ∧
      ends t.kind = false ∧ ∃ n cur, (statement E t).Yields ts n cur ∧
      ms = addPresent ns n ∧ ts' = cur.tail := by
  simp only [moreStatements, yields_bind, yields_current, and_assoc, exists_and_left,
    exists_eq_left]
  cases ts with
  | nil => simp only [List.head?_nil, yields_pure, reduceCtorEq, false_and, exists_false]
  | cons t rest =>
    simp only [List.head?_cons, yields_ite, yields_pure, reduceCtorEq, false_and, yields_bind,
      yields_advance, Sum.inl.injEq, if_false_left, exists_eq_left, exists_const]
    constructor
    · rintro ⟨he, h⟩
      exact ⟨t, rest, rfl, by simpa using he, h⟩
    · rintro ⟨_, _, heq, he, h⟩
      obtain ⟨rfl, rfl⟩ := List.cons.inj heq
      exact ⟨by simpa using he, h⟩

theorem yields_block :
    (block E t).Yields ts n ts' ↔ ∃ ns cur,
      (iterate (moreStatements E (· = .rbrace)) []).Yields ts.tail ns cur ∧ n = .block t ns ∧
      ts' = cur := by
  simp only [block, yields_bind, yields_advance, yields_pure, exists_eq_left, exists_const]

theorem yields_program :
    (program E).Yields ts n ts' ↔ ∃ ns cur,
      (iterate (moreStatements E fun _ => false) []).Yields ts ns cur ∧ n = .program ns ∧
      ts' = cur := by
  simp only [program, yields_bind, yields_pure]

/-! ### Lists -/

theorem addPresent_of_isPresent {ns : List Node} (h : n.isPresent) : addPresent ns n = n :: ns :=
  if_pos h

/-- A list of items goes on behind a comma. -/
theorem yields_moreItems_inl {close : Token.Kind} (hc : close ≠ .eof) {ns ms : List Node} :
    (moreItems E close ns).Yields ts (.inl ms) ts' ↔ ∃ comma rest, ts.tail = comma :: rest ∧
      comma.kind = .comma ∧ ∃ n, (E .lowest).Yields rest n ts' ∧ ms = addPresent ns n := by
  simp only [moreItems, yields_bind, yields_upcomingKind, and_assoc, exists_and_left,
    exists_eq_left, yields_ite, yields_advance, ne_eq, hc, not_false_eq_true, yields_demand,
    yields_pure, exists_const, Sum.inl.injEq, reduceCtorEq, false_and, and_false,
    if_false_right]
  constructor
  · rintro ⟨hk, n, _, hn, rfl, rfl⟩
    obtain ⟨comma, rest, hts, hcomma⟩ := exists_cons_of_nextKind hk (by decide)
    exact ⟨comma, rest, hts, hcomma, n, by simpa [hts] using hn, rfl⟩
  · rintro ⟨comma, rest, hts, hcomma, n, hn, rfl⟩
    exact ⟨by rw [hts]; exact hcomma, n, ts', by simpa [hts] using hn, rfl, rfl⟩

/-- A list of items ends with the closing bracket. -/
theorem yields_moreItems_inr {close : Token.Kind} (hc : close ≠ .eof) {ns : List Node}
    {r : Option (List Node)} :
    (moreItems E close ns).Yields ts (.inr r) ts' ↔ nextKind ts.tail ≠ .comma ∧
      ∃ c rest, ts.tail = c :: rest ∧ c.kind = close ∧ r = some ns.reverse ∧ ts' = c :: rest := by
  simp only [moreItems, yields_bind, yields_upcomingKind, and_assoc, exists_and_left,
    exists_eq_left, yields_ite, yields_advance, ne_eq, hc, not_false_eq_true, yields_demand,
    yields_pure, exists_const, Sum.inr.injEq, reduceCtorEq, false_and, and_false, if_false_left]

theorem yields_items {close : Token.Kind} {r : Option (List Node)} :
    (items E close).Yields ts r ts' ↔
      if nextKind ts.tail = close then r = some [] ∧ ts' = ts.tail
      else ∃ n cur, (E .lowest).Yields ts.tail n cur ∧
        (iterate (moreItems E close) (addPresent [] n)).Yields cur r ts' := by
  simp only [items, yields_bind, yields_upcomingKind, and_assoc, exists_and_left,
    exists_eq_left, yields_ite, yields_advance, yields_pure, exists_const]

/-- A list of names goes on behind a comma. -/
theorem yields_moreParameters_inl {ns ms : List Node} :
    (moreParameters ns).Yields ts (.inl ms) ts' ↔ ∃ comma name rest,
      ts.tail = comma :: name :: rest ∧ comma.kind = .comma ∧ name.kind = .ident ∧
      ms = .identifier name name.literal :: ns ∧ ts' = name :: rest := by
  simp only [moreParameters, yields_bind, yields_upcomingKind, and_assoc, exists_and_left,
    exists_eq_left, yields_ite, yields_advance, ne_eq, reduceCtorEq, not_false_eq_true,
    yields_demand, yields_pure, exists_const, Sum.inl.injEq, false_and, and_false,
    if_false_right]
  constructor
  · rintro ⟨hk, name, rest, hname, h⟩
    obtain ⟨comma, rest', hts, hcomma⟩ := exists_cons_of_nextKind hk (by decide)
    rw [hts, List.tail_cons] at hname
    exact ⟨comma, name, rest, by rw [hts, hname], hcomma, h⟩
  · rintro ⟨comma, name, rest, hts, hcomma, h⟩
    exact ⟨by rw [hts]; exact hcomma, name, rest, by rw [hts]; rfl, h⟩

/-- A list of names ends with the closing parenthesis. -/
theorem yields_moreParameters_inr {ns : List Node} {r : Option (List Node)} :
    (moreParameters ns).Yields ts (.inr r) ts' ↔ nextKind ts.tail ≠ .comma ∧
      ∃ c rest, ts.tail = c :: rest ∧ c.kind = .rparen ∧ r = some ns.reverse ∧
      ts' = c :: rest := by
  simp only [moreParameters, yields_bind, yields_upcomingKind, and_assoc, exists_and_left,
    exists_eq_left, yields_ite, yields_advance, ne_eq, reduceCtorEq, not_false_eq_true,
    yields_demand, yields_pure, exists_const, Sum.inr.injEq, false_and, and_false,
    if_false_left]

theorem yields_parameters {r : Option (List Node)} :
    parameters.Yields ts r ts' ↔
      if nextKind ts.tail = .rparen then r = some [] ∧ ts' = ts.tail
      else ∃ name rest, ts.tail = name :: rest ∧ name.kind = .ident ∧
        (iterate moreParameters [.identifier name name.literal]).Yields (name :: rest) r ts' := by
  simp only [parameters, yields_bind, yields_upcomingKind, and_assoc, exists_and_left,
    exists_eq_left, yields_ite, yields_advance, ne_eq, reduceCtorEq, not_false_eq_true,
    yields_demand, yields_pure, exists_const]

/-- A hash goes on with a pair, and with the comma behind it unless the brace comes up. -/
theorem yields_morePairs_inl {ps qs : List (Node × Node)} :
    (morePairs E ps).Yields ts (.inl qs) ts' ↔ nextKind ts.tail ≠ .rbrace ∧ ∃ key cur,
      (E .lowest).Yields ts.tail key cur ∧ ∃ colon rest, cur.tail = colon :: rest ∧
      colon.kind = .colon ∧ ∃ value cur', (E .lowest).Yields rest value cur' ∧
      ¬ (key.isMissing || value.isMissing) ∧
      if nextKind cur'.tail = .rbrace then qs = (key, value) :: ps ∧ ts' = cur'
      else ∃ comma rest', cur'.tail = comma :: rest' ∧ comma.kind = .comma ∧
        qs = (key, value) :: ps ∧ ts' = comma :: rest' := by
  simp only [morePairs, yields_bind, yields_upcomingKind, and_assoc, exists_and_left,
    exists_eq_left, yields_ite, yields_advance, ne_eq, reduceCtorEq, not_false_eq_true,
    yields_demand, yields_pure, exists_const, List.tail_cons, Sum.inl.injEq, false_and,
    if_false_left]

/-- A hash ends with the closing brace, or with a pair of which a part is missing. -/
theorem yields_morePairs_inr {ps : List (Node × Node)} {r : Option (List (Node × Node))} :
    (morePairs E ps).Yields ts (.inr r) ts' ↔
      if nextKind ts.tail = .rbrace then r = some ps.reverse ∧ ts' = ts.tail
      else ∃ key cur, (E .lowest).Yields ts.tail key cur ∧ ∃ colon rest,
        cur.tail = colon :: rest ∧ colon.kind = .colon ∧ ∃ value cur',
        (E .lowest).Yields rest value cur' ∧ (key.isMissing || value.isMissing) ∧ r = none ∧
        ts' = cur' := by
  simp only [morePairs, yields_bind, yields_upcomingKind, and_assoc, exists_and_left,
    exists_eq_left, yields_ite, yields_advance, ne_eq, reduceCtorEq, not_false_eq_true,
    yields_demand, yields_pure, exists_const, List.tail_cons, Sum.inr.injEq, false_and,
    and_false, ite_self, if_false_right]

/-! ### Operands -/

theorem yields_integer :
    (integer t).Yields ts n ts' ↔
      ∃ value, integerValue? t.literal.toList = some value ∧ n = .integer t value ∧ ts' = ts := by
  unfold integer
  cases integerValue? t.literal.toList with
  | none => simp only [yields_bind, not_yields_complain, false_and, exists_false, reduceCtorEq]
  | some value => simp only [yields_pure, Option.some.injEq, exists_eq_left']

theorem yields_prefixed :
    (prefixed E t).Yields ts n ts' ↔ ∃ right cur,
      (E .prefixed).Yields ts.tail right cur ∧ n = .prefixed t t.literal right ∧ ts' = cur := by
  simp only [prefixed, yields_bind, yields_advance, yields_pure, exists_eq_left, exists_const]

theorem yields_grouped :
    (grouped E).Yields ts n ts' ↔ ∃ inner cur, (E .lowest).Yields ts.tail inner cur ∧
      ∃ close rest, cur.tail = close :: rest ∧ close.kind = .rparen ∧ n = inner ∧
      ts' = close :: rest := by
  simp only [grouped, yields_bind, yields_advance, ne_eq, reduceCtorEq, not_false_eq_true,
    yields_demand, yields_pure, exists_eq_left, exists_const]

theorem yields_conditional :
    (conditional E t).Yields ts n ts' ↔ ∃ lp rest, ts.tail = lp :: rest ∧ lp.kind = .lparen ∧
      ∃ condition cur, (E .lowest).Yields rest condition cur ∧ ∃ rp rest',
      cur.tail = rp :: rest' ∧ rp.kind = .rparen ∧ ∃ brace rest'', rest' = brace :: rest'' ∧
      brace.kind = .lbrace ∧ ∃ consequence cur',
      (block E brace).Yields (brace :: rest'') consequence cur' ∧
      if nextKind cur'.tail = .elseWord then
        ∃ brace' last, cur'.tail.tail = brace' :: last ∧ brace'.kind = .lbrace ∧
        ∃ alternative cur'', (block E brace').Yields (brace' :: last) alternative cur'' ∧
        n = .conditional t condition consequence alternative ∧ ts' = cur''
      else n = .conditional t condition consequence .missing ∧ ts' = cur' := by
  simp only [conditional, yields_bind, yields_upcomingKind, and_assoc, exists_and_left,
    exists_eq_left, yields_ite, yields_advance, ne_eq, reduceCtorEq, not_false_eq_true,
    yields_demand, yields_pure, exists_const, List.tail_cons]

/-- The parameters of a function are not read without a complaint and left out. -/
theorem yields_function :
    (function E t).Yields ts n ts' ↔ ∃ lp rest, ts.tail = lp :: rest ∧ lp.kind = .lparen ∧
      ((∃ cur, parameters.Yields (lp :: rest) none cur ∧ n = .missing ∧ ts' = cur) ∨
        ∃ names cur, parameters.Yields (lp :: rest) (some names) cur ∧ ∃ brace rest',
        cur.tail = brace :: rest' ∧ brace.kind = .lbrace ∧ ∃ body cur',
        (block E brace).Yields (brace :: rest') body cur' ∧ n = .function t names body ∧
        ts' = cur') := by
  simp only [function, yields_bind, ne_eq, reduceCtorEq, not_false_eq_true, yields_demand,
    yields_pure, Option.exists]

theorem yields_array :
    (array E t).Yields ts n ts' ↔
      (∃ cur, (items E .rbracket).Yields ts none cur ∧ n = .missing ∧ ts' = cur) ∨
        ∃ elements cur, (items E .rbracket).Yields ts (some elements) cur ∧
        n = .array t elements ∧ ts' = cur := by
  simp only [array, yields_bind, yields_pure, Option.exists]

theorem yields_hash :
    (hash E t).Yields ts n ts' ↔
      (∃ cur, (iterate (morePairs E) []).Yields ts none cur ∧ n = .missing ∧ ts' = cur) ∨
        ∃ pairs cur, (iterate (morePairs E) []).Yields ts (some pairs) cur ∧
        n = .hash t pairs ∧ ts' = cur := by
  simp only [hash, yields_bind, yields_pure, Option.exists]

/-! ### Operators -/

/-- The arguments of a call. -/
theorem yields_extend_call (ht : t.kind = .lparen) {left : Node} :
    (extend E left t).Yields ts n ts' ↔
      (∃ cur, (items E .rparen).Yields ts none cur ∧ n = .missing ∧ ts' = cur) ∨
        ∃ arguments cur, (items E .rparen).Yields ts (some arguments) cur ∧
        n = .call t left arguments ∧ ts' = cur := by
  simp only [extend, ht, yields_bind, yields_pure, Option.exists]

/-- The subscript in brackets. -/
theorem yields_extend_index (ht : t.kind = .lbracket) {left : Node} :
    (extend E left t).Yields ts n ts' ↔ ∃ subscript cur,
      (E .lowest).Yields ts.tail subscript cur ∧ ∃ close rest, cur.tail = close :: rest ∧
      close.kind = .rbracket ∧ n = .index t left subscript ∧ ts' = close :: rest := by
  simp only [extend, ht, yields_bind, yields_advance, ne_eq, reduceCtorEq, not_false_eq_true,
    yields_demand, yields_pure, exists_eq_left, exists_const]

/-- The right operand of an infix operator, which is read at the level of the operator. -/
theorem yields_extend_operator (hc : t.kind ≠ .lparen) (hi : t.kind ≠ .lbracket) {left : Node} :
    (extend E left t).Yields ts n ts' ↔ ∃ right cur,
      (E (.ofKind t.kind)).Yields ts.tail right cur ∧ n = .infixed t left t.literal right ∧
      ts' = cur := by
  unfold extend
  split
  · exact absurd ‹_› hc
  · exact absurd ‹_› hi
  · simp only [yields_bind, yields_advance, yields_pure, exists_eq_left, exists_const]

/-- How tightly the token that comes first binds to an expression in front of it. -/
def binding (ts : List Token) : Nat := (Level.ofKind (nextKind ts)).rank

@[simp] theorem binding_nil : binding [] = 1 := rfl

@[simp] theorem binding_cons (t : Token) (ts : List Token) :
    binding (t :: ts) = (Level.ofKind t.kind).rank := rfl

/-- An operator that binds tightly enough is taken up. -/
theorem yields_climb_inl {level : Level} {left n : Node} :
    (climb E level left).Yields ts (.inl n) ts' ↔ ∃ t rest, ts.tail = t :: rest ∧
      level.rank < (Level.ofKind t.kind).rank ∧ (extend E left t).Yields (t :: rest) n ts' := by
  simp only [climb, yields_bind, yields_upcoming, and_assoc, exists_and_left, exists_eq_left]
  cases hts : ts.tail with
  | nil => simp only [List.head?_nil, yields_pure, reduceCtorEq, false_and, exists_false]
  | cons t rest =>
    simp only [List.head?_cons, yields_ite, yields_bind, yields_advance, hts, yields_pure,
      reduceCtorEq, false_and, if_false_right, Sum.inl.injEq, exists_eq_left, exists_const]
    constructor
    · rintro ⟨hl, n', cur, h, rfl, rfl⟩
      exact ⟨t, rest, rfl, hl, h⟩
    · rintro ⟨_, _, heq, hl, h⟩
      obtain ⟨rfl, rfl⟩ := List.cons.inj heq
      exact ⟨hl, n, ts', h, rfl, rfl⟩

/-- At any other token the expression ends. -/
theorem yields_climb_inr {level : Level} {left n : Node} :
    (climb E level left).Yields ts (.inr n) ts' ↔
      binding ts.tail ≤ level.rank ∧ n = left ∧ ts' = ts := by
  simp only [climb, yields_bind, yields_upcoming, and_assoc, exists_and_left, exists_eq_left]
  cases ts.tail with
  | nil =>
    have : 1 ≤ level.rank := by cases level <;> decide
    simp only [List.head?_nil, yields_pure, Sum.inr.injEq, binding_nil, this, true_and]
  | cons t rest =>
    simp only [List.head?_cons, yields_ite, yields_bind, yields_advance, yields_pure,
      reduceCtorEq, false_and, and_false, exists_false, if_false_left, Sum.inr.injEq,
      binding_cons, Nat.not_lt]

theorem yields_expression {depth : Nat} {level : Level} :
    (expression (depth + 1) level).Yields ts n ts' ↔ ∃ t rest, ts = t :: rest ∧ ∃ operand,
      operand? (expression depth) t = some operand ∧ ∃ left cur, operand.Yields ts left cur ∧
      (iterate (climb (expression depth) level) left).Yields cur n ts' := by
  simp only [expression, yields_bind, yields_current, and_assoc, exists_and_left, exists_eq_left]
  cases ts with
  | nil =>
    simp only [List.head?_nil, Option.bind_none, yields_bind, not_yields_complain, false_and,
      exists_false, reduceCtorEq]
  | cons t rest =>
    simp only [List.head?_cons, Option.bind_some]
    constructor
    · intro h
      split at h
      · next hn =>
        simp only [yields_bind, not_yields_complain, false_and, exists_false] at h
      · next operand ho => exact ⟨t, rest, rfl, operand, ho, yields_bind.mp h⟩
    · rintro ⟨_, _, heq, operand, ho, h⟩
      obtain ⟨rfl, rfl⟩ := List.cons.inj heq
      rw [ho]
      exact yields_bind.mpr h

end Monkey.Parse
