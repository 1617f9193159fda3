import Monkey.Proofs.Syntax.Enough
import Monkey.Proofs.Token.Spans

/-!
# The course of the parser

A parser says what comes of the tokens in front of it.  The course of a parser says how: which
tokens it goes over one after another, round by round in its loops, and call by call where an
expression is nested in another one.  Every round of a loop goes over a token, unless it is the
last one, and a nested expression begins further on than the one around it.  So the only reason to
give up is that expressions are nested too deeply.

Every text has a course.  Its tokens are the ones that the calls of the scanner give, and a program
ends only where none of them is left.

## Main definitions

* `Parser.Ending` — with a value and complaints, or given up.
* `Parser.Course` — the tokens that a parser goes over, those that are left, and how it ends.

## Main results

* `Parser.Course.sound` — a parser gives what its course says.
* `course_of_expression`, `course_of_program` — every row of tokens has a course.
* `Scanner.token_behind` — the tokens that the calls of the scanner give.
* `parser_reads_everything` — the parser always finishes, and has read everything then.
-/

namespace Monkey

namespace Parser

/-- How a parser ends. -/
inductive Ending (α : Type)
  | done (value : α) (complaints : List Complaint)
  /-- Expressions are nested too deeply. -/
  | gaveUp

namespace Ending

variable {α : Type}

/-- The ending behind some complaints. -/
def behind (complaints : List Complaint) : Ending α → Ending α
  | done a cs => done a (complaints ++ cs)
  | gaveUp => gaveUp

/-- What a parser gives that ends in this way and has gone over `count` tokens. -/
def reading (count : Nat) : Ending α → Option (Reading α)
  | done a complaints => some ⟨a, count, complaints⟩
  | gaveUp => none

theorem reading_done (count : Nat) (a : α) (complaints : List Complaint) :
    (done a complaints).reading count = some ⟨a, count, complaints⟩ := rfl

theorem reading_behind (complaints : List Complaint) (count count' : Nat) {β : Type} (b : β)
    (e : Ending α) :
    (e.behind complaints).reading (count + count') =
      (e.reading count').map (Reading.followedBy ⟨b, count, complaints⟩) := by
  cases e <;> rfl

end Ending

/-- `Course bound p ts gone rest ending`: in front of the tokens `ts`, the parser `p` goes over the
tokens `gone`, one after another, and ends with `rest` left.  Fewer than `bound` tokens are left
wherever an expression is read on the way. -/
inductive Course : {α : Type} → Nat → Parser α → List Token → List Token → List Token →
    Ending α → Prop
  | pure {α : Type} {bound : Nat} {ts : List Token} (a : α) :
      Course bound (pure a) ts [] ts (.done a [])
  | current {bound : Nat} {ts : List Token} : Course bound current ts [] ts (.done ts.head? [])
  | upcoming {bound : Nat} {ts : List Token} :
      Course bound upcoming ts [] ts (.done ts.tail.head? [])
  | complain {bound : Nat} {ts : List Token} (c : Complaint) :
      Course bound (complain c) ts [] ts (.done () [c])
  /-- The current token is gone over; the next one is the current one then. -/
  | advance {bound : Nat} (t : Token) (ts : List Token) :
      Course bound advance (t :: ts) [t] ts (.done () [])
  /-- At the end there is nothing to go over. -/
  | stay {bound : Nat} : Course bound advance [] [] [] (.done () [])
  | bind {α β : Type} {bound : Nat} {p : Parser α} {k : α → Parser β}
      {ts gone mid gone' rest : List Token} {a : α} {complaints : List Complaint} {e : Ending β}
      (first : Course bound p ts gone mid (.done a complaints))
      (second : Course bound (k a) mid gone' rest e) :
      Course bound (p >>= k) ts (gone ++ gone') rest (e.behind complaints)
  | bindGaveUp {α β : Type} {bound : Nat} {p : Parser α} {k : α → Parser β}
      {ts gone rest : List Token} (first : Course bound p ts gone rest .gaveUp) :
      Course bound (p >>= k) ts gone rest .gaveUp
  /-- The last round of a loop. -/
  | last {σ α : Type} {bound : Nat} {step : σ → Parser (σ ⊕ α)} {s : σ}
      {ts gone rest : List Token} {a : α} {complaints : List Complaint}
      (round : Course bound (step s) ts gone rest (.done (.inr a) complaints)) :
      Course bound (iterate step s) ts gone rest (.done a complaints)
  /-- A round of a loop that goes on: it has gone over a token. -/
  | again {σ α : Type} {bound : Nat} {step : σ → Parser (σ ⊕ α)} {s s' : σ}
      {ts gone mid gone' rest : List Token} {complaints : List Complaint} {e : Ending α}
      (round : Course bound (step s) ts gone mid (.done (.inl s') complaints))
      (progress : gone ≠ []) (others : Course bound (iterate step s') mid gone' rest e) :
      Course bound (iterate step s) ts (gone ++ gone') rest (e.behind complaints)
  | roundGaveUp {σ α : Type} {bound : Nat} {step : σ → Parser (σ ⊕ α)} {s : σ}
      {ts gone rest : List Token} (round : Course bound (step s) ts gone rest .gaveUp) :
      Course bound (iterate step s : Parser α) ts gone rest .gaveUp
  /-- An expression: those that are nested in it begin where fewer tokens are left. -/
  | expression {bound depth : Nat} {level : Level} {ts gone rest : List Token} {e : Ending Node}
      (further : ts.length < bound)
      (inside : Course ts.length (Parse.nested (Parse.expression depth) level) ts gone rest e) :
      Course bound (Parse.expression (depth + 1) level) ts gone rest e
  /-- An expression at which no more may be nested. -/
  | tooDeep {bound : Nat} {level : Level} {ts : List Token} (further : ts.length < bound) :
      Course bound (Parse.expression 0 level) ts [] ts .gaveUp

/-- **A parser gives what its course says.**  The tokens that it goes over are the first ones, each
of them once and in their order. -/
theorem Course.sound {α : Type} {bound : Nat} {p : Parser α} {ts gone rest : List Token}
    {e : Ending α} (h : Course bound p ts gone rest e) :
    ts = gone ++ rest ∧ p ts = e.reading gone.length := by
  induction h with
  | pure | current | upcoming | complain | advance | stay => exact ⟨rfl, rfl⟩
  | bind _ _ ihFirst ihSecond =>
    obtain ⟨rfl, hfirst⟩ := ihFirst
    obtain ⟨rfl, hsecond⟩ := ihSecond
    refine ⟨(List.append_assoc _ _ _).symm, ?_⟩
    rw [bind_apply, hfirst, Ending.reading_done]
    dsimp only
    rw [List.drop_left, hsecond, List.length_append, Ending.reading_behind]
  | bindGaveUp _ ih =>
    obtain ⟨rfl, hfirst⟩ := ih
    rw [bind_apply, hfirst]
    exact ⟨rfl, rfl⟩
  | last _ ih =>
    obtain ⟨rfl, hround⟩ := ih
    exact ⟨rfl, iterate_of_inr hround⟩
  | again _ progress _ ihRound ihOthers =>
    obtain ⟨rfl, hround⟩ := ihRound
    obtain ⟨rfl, hothers⟩ := ihOthers
    refine ⟨(List.append_assoc _ _ _).symm, ?_⟩
    have hpos := List.length_pos_iff.mpr progress
    rw [iterate_of_inl hround (List.append_ne_nil_of_left_ne_nil progress _) hpos,
      List.drop_left, hothers, List.length_append, Ending.reading_behind]
  | roundGaveUp _ ih =>
    obtain ⟨rfl, hround⟩ := ih
    rw [iterate_apply, hround]
    exact ⟨rfl, rfl⟩
  | expression _ _ ih => exact ih
  | tooDeep => exact ⟨rfl, rfl⟩

/-- The parser has a course. -/
def HasCourse (bound : Nat) (α : Type) (p : Parser α) (ts : List Token) : Prop :=
  ∃ gone rest e, Course bound p ts gone rest e

instance (bound : Nat) : Compositional (HasCourse bound) where
  of_pure a ts := ⟨[], ts, _, .pure a⟩
  of_current ts := ⟨[], ts, _, .current⟩
  of_upcoming ts := ⟨[], ts, _, .upcoming⟩
  of_complain c ts := ⟨[], ts, _, .complain c⟩
  of_advance ts := by
    cases ts with
    | nil => exact ⟨[], [], _, .stay⟩
    | cons t ts => exact ⟨[t], ts, _, .advance t ts⟩
  of_bind {_ _ p k ts} hp hk := by
    obtain ⟨gone, rest, e, hfirst⟩ := hp
    obtain ⟨rfl, hp⟩ := hfirst.sound
    cases e with
    | gaveUp => exact ⟨gone, rest, _, .bindGaveUp hfirst⟩
    | done a complaints =>
      obtain ⟨gone', rest', e', hsecond⟩ := hk _ hp
      rw [List.drop_left] at hsecond
      exact ⟨gone ++ gone', rest', _, .bind hfirst hsecond⟩
  of_iterate {_ _ step s ts} hround shortens hothers := by
    obtain ⟨gone, rest, e, hround⟩ := hround
    obtain ⟨rfl, hp⟩ := hround.sound
    match e with
    | .gaveUp => exact ⟨gone, rest, _, .roundGaveUp hround⟩
    | .done (.inr a) complaints => exact ⟨gone, rest, _, .last hround⟩
    | .done (.inl s') complaints =>
      have shorter := shortens _ _ _ hp
      have progress : gone ≠ [] := by
        rintro rfl
        exact Nat.lt_irrefl _ shorter
      obtain ⟨gone', rest', e', hothers⟩ := hothers _ _ _ hp
      rw [List.drop_left] at hothers
      exact ⟨gone ++ gone', rest', _, .again hround progress hothers⟩

end Parser

namespace Parse

open Monkey.Parser

variable {ts : List Token}

/-- Every expression has a course, at every depth. -/
theorem course_of_expression (depth bound : Nat) (level : Level) (h : ts.length < bound) :
    HasCourse bound _ (expression depth level) ts := by
  induction depth generalizing bound level ts with
  | zero => exact ⟨[], ts, .gaveUp, .tooDeep h⟩
  | succ depth ih =>
    have hinside : HasCourse ts.length _ (nested (expression depth) level) ts := by
      cases ts with
      | nil => exact nested_nil _ level
      | cons t ts =>
        -- the operand begins with a token, so the bound is less by one further down
        have hE : HoldsAll (HasCourse (ts.length + 1)) ts.length (expression depth) :=
          fun level us hus => ih _ level (Nat.lt_succ_of_le hus)
        exact holds_nested hE level _ (Nat.le_refl _)
    obtain ⟨gone, rest, e, hinside⟩ := hinside
    exact ⟨gone, rest, e, .expression h hinside⟩

/-- Every program has a course. -/
theorem course_of_program (depth : Nat) (ts : List Token) :
    HasCourse (ts.length + 1) _ (program (expression depth)) ts := by
  have hE : HoldsAll (HasCourse (ts.length + 1)) ts.length (expression depth) :=
    fun level us hus => course_of_expression depth _ level (Nat.lt_succ_of_le hus)
  exact holds_program hE ts (Nat.le_refl _)

/-! ### The end of a program -/

/-- A loop ends with a round that has the result. -/
theorem exists_last_round {σ α : Type} {step : σ → Parser (σ ⊕ α)} {s : σ} {r : Reading α}
    (h : iterate step s ts = some r) :
    ∃ s' before count complaints,
      step s' (ts.drop before) = some ⟨.inr r.value, count, complaints⟩ ∧
        r.count = before + count := by
  induction hn : ts.length using Nat.strongRecOn generalizing s ts r with
  | ind n ih =>
    rw [iterate_apply] at h
    split at h
    · cases h
    · next a count complaints hround =>
      cases h
      exact ⟨s, 0, count, complaints, hround, (Nat.zero_add count).symm⟩
    · next s' count complaints hround =>
      split at h
      · next progress =>
        obtain ⟨q, hq, rfl⟩ := Option.map_eq_some_iff.mp h
        have hlength := List.length_pos_iff.mpr progress.1
        obtain ⟨s₁, before, count', complaints', hlast, hcount⟩ :=
          ih _ (by rw [List.length_drop]; omega) hq rfl
        rw [List.drop_drop] at hlast
        refine ⟨s₁, count + before, count', complaints', hlast, ?_⟩
        rw [Reading.followedBy, hcount, Nat.add_assoc]
      · cases h

/-- The statements of a program end where no token is left. -/
theorem eq_nil_of_moreStatements_inr {E : Expressions} {ns ms : List Node} {count : Nat}
    {complaints : List Complaint}
    (h : moreStatements E (fun _ => false) ns ts = some ⟨.inr ms, count, complaints⟩) :
    ts = [] := by
  cases ts with
  | nil => rfl
  | cons t ts =>
    -- a statement is read, and the round goes on
    obtain ⟨q, hq, hvalue⟩ := Option.map_eq_some_iff.mp h
    rw [List.head?_cons] at hq
    dsimp only at hq
    rw [if_neg Bool.false_ne_true, bind_apply] at hq
    split at hq
    · contradiction
    · obtain ⟨q', hq', rfl⟩ := Option.map_eq_some_iff.mp hq
      obtain rfl := Option.some.inj hq'
      cases congrArg Reading.value hvalue

/-- A program goes over all tokens. -/
theorem drop_of_program {E : Expressions} {r : Reading Node} (h : program E ts = some r) :
    ts.drop r.count = [] := by
  rw [program, bind_apply] at h
  split at h
  · contradiction
  · next q hq =>
    obtain rfl := Option.some.inj h
    obtain ⟨ns, before, count, complaints, hlast, hcount⟩ := exists_last_round hq
    have hend := eq_nil_of_moreStatements_inr hlast
    change ts.drop q.count = []
    rw [hcount, ← List.drop_drop, hend, List.drop_nil]

end Parse

/-! ### Texts -/

/-- What is parsed if the program ends in this way. -/
def Parser.Ending.parsed : Ending Node → Option Parsed
  | done program complaints => some ⟨program, complaints⟩
  | gaveUp => none

/-- Each call of the scanner gives the next token, and the end when there is none any more. -/
theorem Scanner.token_behind (s : Scanner) (k : Nat) :
    (s.behind k).span.token = s.tokens[k]?.getD (endToken s.last) := by
  fun_induction tokens s generalizing k with
  | case1 s hs =>
    have hbehind := s.next?_behind k
    rw [spans_of_none hs, List.length_nil, Nat.zero_add] at hbehind
    rw [span_of_none hbehind.1, hbehind.2]
    rfl
  | case2 s t s' hs ih =>
    cases k with
    | zero =>
      rw [behind, span, next_of_some hs]
      rfl
    | succ k =>
      rw [behind, next_of_some hs, ih, last_of_some hs]
      rfl

open Monkey.Parser in
/-- **The parser always finishes, and has read everything then.**  Whatever the text is, the run of
the parser has a course: its loops go over a token in every round but the last one, and its nested
expressions begin one behind the other.  Either the expressions are nested too deeply, which they
are not at any depth greater than the number of tokens, or all tokens have been gone over, each of
them once and in order.  These are the tokens that the calls of the scanner give up to the end. -/
theorem parser_reads_everything (text : String) :
    (∀ depth, ∃ gone rest ending,
      Course ((tokens text).length + 1) (Parse.program (Parse.expression depth)) (tokens text)
        gone rest ending ∧
      gone ++ rest = tokens text ∧
      parse depth text = ending.parsed ∧
      (ending = .gaveUp ∨ gone = tokens text ∧ rest = [])) ∧
    (∀ k, (parse ((tokens text).length + 1 + k) text).isSome) ∧
    ∀ k, ((Scanner.ofText text).behind k).span.token =
      (tokens text)[k]?.getD (Scanner.endToken (Place.start.afterAll text.toList)) := by
  refine ⟨fun depth => ?_, fun k => ?_, (Scanner.ofText text).token_behind⟩
  · obtain ⟨gone, rest, ending, hcourse⟩ := Parse.course_of_program depth (tokens text)
    obtain ⟨hsplit, hreading⟩ := hcourse.sound
    refine ⟨gone, rest, ending, hcourse, hsplit.symm, ?_, ?_⟩
    · rw [parse, hreading]
      cases ending <;> rfl
    · cases ending with
      | gaveUp => exact .inl rfl
      | done program complaints =>
        have hdrop := Parse.drop_of_program hreading
        rw [hsplit, List.drop_left] at hdrop
        rw [hdrop, List.append_nil] at hsplit
        exact .inr ⟨hsplit.symm, hdrop⟩
  · exact isSome_parse (Nat.lt_of_lt_of_le (Nat.lt_succ_self _) (Nat.le_add_right _ k))

end Monkey
