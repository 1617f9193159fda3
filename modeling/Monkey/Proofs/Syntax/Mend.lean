import Monkey.Proofs.Syntax.Grammar
import Monkey.Proofs.Token.Spelling

/-!
# Completing what has been begun

A word of the grammar hardly depends on what follows it: only a block that is closed by the end of
the text does, and there its brace can be put in.  So what has been read without a complaint can
be made a word in front of everything, and what breaks off inside of a word can be completed by a
few tokens of one's own.

## Main definitions

* `Grammar.Spans` — the tokens are a word whatever follows.
* `Grammar.Mends` — the tokens are the beginning of a word.
* `Grammar.Stalled` — the tokens in front of the one that a complaint is about are the beginning of
  a word.

## Main results

* `Grammar.Derives.covers` — a word that is followed by something is one whatever follows, and a
  word at the end of a text becomes one with closing braces behind it.
* `Grammar.Stalled.inside`, `Grammar.Stalled.append` — what breaks off inside of a construct, and
  behind a word.
-/

namespace Monkey.Grammar

open Monkey.Grammar.Symbol

variable {s s₁ s₂ : Symbol} {t t' : Token} {u v ts mid rest : List Token} {c : Complaint}

/-! ### Words in front of everything -/

/-- The tokens are a word of the symbol, whatever follows. -/
def Spans (s : Symbol) (u : List Token) : Prop := ∀ rest, Derives s (u ++ rest) rest

namespace Spans

theorem none : Spans statements [] := fun _ => .none

theorem ended (first : Spans sentence u) (ht : t.kind = .semicolon) (others : Spans statements v) :
    Spans statements (u ++ t :: v) := fun rest => by
  rw [List.append_assoc]
  exact .ended (first _) ht (others rest)

theorem unended (first : Spans sentence u) (apart : ∀ t ∈ v.head?, ¬ Continues t.kind)
    (others : Spans statements v) : Spans statements (u ++ v) := fun rest => by
  rw [List.append_assoc]
  refine .unended (first _) (fun hne t ht => apart t ?_) (others rest)
  cases v with
  | nil => contradiction
  | cons t' v => exact ht

theorem letSentence {word name sign : Token} (hw : word.kind = .letWord) (hn : name.kind = .ident)
    (hs : sign.kind = .assign) (value : Spans expression v) :
    Spans sentence (word :: name :: sign :: v) :=
  fun rest => .letSentence hw hn hs (value rest)

theorem returnSentence (ht : t.kind = .returnWord) (value : Spans expression v) :
    Spans sentence (t :: v) :=
  fun rest => .returnSentence ht (value rest)

theorem expressionSentence (value : Spans expression v) : Spans sentence v :=
  fun rest => .expressionSentence (value rest)

theorem single (first : Spans unary v) : Spans expression v := fun rest => .single (first rest)

theorem operation (left : Spans expression u) (ht : IsInfix t.kind) (right : Spans expression v) :
    Spans expression (u ++ t :: v) := fun rest => by
  rw [List.append_assoc]
  exact (right rest).joined rfl (left _) ht

theorem prefixed (ht : IsPrefix t.kind) (right : Spans unary v) : Spans unary (t :: v) :=
  fun rest => .prefixed ht (right rest)

theorem plain (inner : Spans operand v) : Spans unary v := fun rest => .plain (inner rest)

theorem simple (inner : Spans primary v) : Spans operand v := fun rest => .simple (inner rest)

theorem call (callee : Spans operand u) (ht : t.kind = .lparen) (arguments : Spans items v)
    (ht' : t'.kind = .rparen) : Spans operand (u ++ t :: (v ++ [t'])) := fun rest => by
  rw [List.append_assoc, List.cons_append, List.append_assoc]
  exact .call (callee _) ht (arguments _) ht'

theorem index (left : Spans operand u) (ht : t.kind = .lbracket) (subscript : Spans expression v)
    (ht' : t'.kind = .rbracket) : Spans operand (u ++ t :: (v ++ [t'])) := fun rest => by
  rw [List.append_assoc, List.cons_append, List.append_assoc]
  exact .index (left _) ht (subscript _) ht'

theorem word (ht : IsWord t.kind) : Spans primary [t] := fun _ => .word ht

theorem integer (ht : t.kind = .int) (range : InRange t) : Spans primary [t] :=
  fun _ => .integer ht range

theorem grouped (ht : t.kind = .lparen) (inner : Spans expression v) (ht' : t'.kind = .rparen) :
    Spans primary (t :: (v ++ [t'])) := fun rest => by
  rw [List.cons_append, List.append_assoc]
  exact .grouped ht (inner _) ht'

theorem conditional {word lp rp : Token} (hw : word.kind = .ifWord) (hl : lp.kind = .lparen)
    (condition : Spans expression u) (hr : rp.kind = .rparen) (consequence : Spans block v) :
    Spans primary (word :: lp :: (u ++ rp :: v)) := fun rest => by
  rw [List.cons_append, List.cons_append, List.append_assoc]
  exact .conditional hw hl (condition _) hr (consequence rest)

theorem alternative {word lp rp other : Token} {b : List Token} (hw : word.kind = .ifWord)
    (hl : lp.kind = .lparen) (condition : Spans expression u) (hr : rp.kind = .rparen)
    (consequence : Spans block b) (ho : other.kind = .elseWord) (alternative : Spans block v) :
    Spans primary (word :: lp :: (u ++ rp :: (b ++ other :: v))) := fun rest => by
  rw [List.cons_append, List.cons_append, List.append_assoc, List.cons_append, List.append_assoc]
  exact .alternative hw hl (condition _) hr (consequence _) ho (alternative rest)

theorem function {word lp rp : Token} (hw : word.kind = .fnWord) (hl : lp.kind = .lparen)
    (names : Spans parameters u) (hr : rp.kind = .rparen) (body : Spans block v) :
    Spans primary (word :: lp :: (u ++ rp :: v)) := fun rest => by
  rw [List.cons_append, List.cons_append, List.append_assoc]
  exact .function hw hl (names _) hr (body rest)

theorem array (ht : t.kind = .lbracket) (elements : Spans items v) (ht' : t'.kind = .rbracket) :
    Spans primary (t :: (v ++ [t'])) := fun rest => by
  rw [List.cons_append, List.append_assoc]
  exact .array ht (elements _) ht'

theorem hash (ht : t.kind = .lbrace) (entries : Spans pairs v) (ht' : t'.kind = .rbrace) :
    Spans primary (t :: (v ++ [t'])) := fun rest => by
  rw [List.cons_append, List.append_assoc]
  exact .hash ht (entries _) ht'

theorem noItem : Spans items [] := fun _ => .noItem

theorem someItems (first : Spans expression u) (others : Spans moreItems v) :
    Spans items (u ++ v) := fun rest => by
  rw [List.append_assoc]
  exact .someItems (first _) (others rest)

theorem lastItem : Spans moreItems [] := fun _ => .lastItem

theorem nextItem (ht : t.kind = .comma) (next : Spans expression u) (others : Spans moreItems v) :
    Spans moreItems (t :: (u ++ v)) := fun rest => by
  rw [List.cons_append, List.append_assoc]
  exact .nextItem ht (next _) (others rest)

theorem closed (ht : t.kind = .lbrace) (inner : Spans statements v) (ht' : t'.kind = .rbrace) :
    Spans block (t :: (v ++ [t'])) := fun rest => by
  rw [List.cons_append, List.append_assoc]
  exact .closed ht (inner _) ht'

theorem noParameter : Spans parameters [] := fun _ => .noParameter

theorem someParameters (ht : t.kind = .ident) (others : Spans moreParameters v) :
    Spans parameters (t :: v) :=
  fun rest => .someParameters ht (others rest)

theorem lastParameter : Spans moreParameters [] := fun _ => .lastParameter

theorem nextParameter (ht : t.kind = .comma) (ht' : t'.kind = .ident)
    (others : Spans moreParameters v) : Spans moreParameters (t :: t' :: v) :=
  fun rest => .nextParameter ht ht' (others rest)

theorem noPair : Spans pairs [] := fun _ => .noPair

theorem lastPair (last : Spans pair v) : Spans pairs v := fun rest => .lastPair (last rest)

theorem nextPair (first : Spans pair u) (ht : t.kind = .comma) (others : Spans pairs v) :
    Spans pairs (u ++ t :: v) := fun rest => by
  rw [List.append_assoc]
  exact .nextPair (first _) ht (others rest)

theorem pair (key : Spans expression u) (ht : t.kind = .colon) (value : Spans expression v) :
    Spans pair (u ++ t :: v) := fun rest => by
  rw [List.append_assoc]
  exact .pair (key _) ht (value rest)

end Spans

/-! ### Tokens that are put in -/

/-- A name. -/
def name : Token := (Lexeme.plain .ident ['x']).unplaced

/-- The delimiter of one character. -/
def sign (c : Char) : Token := (Lexeme.plain ((Token.Kind.ofChar? c).getD .illegal) [c]).unplaced

/-- The delimiters that are put in. -/
def delimiters : List Char := ['=', ':', '(', ')', '{', '}', ']']

/-- The tokens that are put in. -/
def Filler (t : Token) : Prop := t ∈ name :: delimiters.map sign

instance (t : Token) : Decidable (Filler t) := inferInstanceAs (Decidable (t ∈ _))

theorem Filler.spellable (h : Filler t) : t.Spellable := by
  rcases List.mem_cons.mp h with rfl | h
  · have hname : (Lexeme.plain .ident ['x']).StandsBefore [] :=
      Lexeme.standsBefore_word (by decide) (List.forall_mem_nil _) fun _ h => nomatch h
    exact hname.spellable
  · obtain ⟨c, hc, rfl⟩ := List.mem_map.mp h
    refine Lexeme.StandsBefore.spellable (?_ : Lexeme.StandsBefore _ [' '])
    simp only [delimiters, List.mem_cons, List.not_mem_nil, or_false] at hc
    rcases hc with rfl | rfl | rfl | rfl | rfl | rfl | rfl <;> exact ⟨_, [], rfl, rfl, rfl⟩

theorem spans_name : Spans primary [name] := .word (by decide)

/-- A name is put in for an expression. -/
theorem spans_expression_name : Spans expression [name] := .single (.plain (.simple spans_name))

/-- An empty block is put in for a block. -/
theorem spans_block_signs : Spans block [sign '{', sign '}'] :=
  .closed (by decide) .none (by decide)

/-! ### Words that have been read -/

/-- The tokens in front of `rest` are of `S` once some fillers are put in, which are needed at the
end of a text only. -/
def Covers (S : List Token → Prop) (ts rest : List Token) : Prop :=
  ∃ u w, ts = u ++ rest ∧ (w ≠ [] → rest = [] ∧ u ≠ []) ∧ (∀ t ∈ w, Filler t) ∧ S (u ++ w)

namespace Covers

variable {S S₁ S₂ : List Token → Prop}

theorem intro (h : S u) : Covers S (u ++ rest) rest :=
  ⟨u, [], rfl, fun hne => absurd rfl hne, List.forall_mem_nil _, by rwa [List.append_nil]⟩

/-- In front of something a word is one as it stands. -/
theorem exists_append (h : Covers S ts rest) (hr : rest ≠ []) : ∃ u, ts = u ++ rest ∧ S u := by
  obtain ⟨u, w, rfl, hw, -, hS⟩ := h
  have hnil : w = [] := Classical.byContradiction fun hne => hr (hw hne).1
  rw [hnil, List.append_nil] at hS
  exact ⟨u, rfl, hS⟩

/-- Some tokens in front of a word. -/
theorem behind (h : Covers S₁ ts rest) (pre : List Token) (f : ∀ v, S₁ v → S (pre ++ v)) :
    Covers S (pre ++ ts) rest := by
  obtain ⟨u, w, rfl, hw, hfill, hS⟩ := h
  refine ⟨pre ++ u, w, (List.append_assoc _ _ _).symm, fun hne => ⟨(hw hne).1, ?_⟩, hfill, ?_⟩
  · exact List.append_ne_nil_of_right_ne_nil pre (hw hne).2
  · rw [List.append_assoc]
    exact f _ hS

/-- A word that is the whole of another one. -/
theorem whole (h : Covers S₁ ts rest) (f : ∀ v, S₁ v → S v) : Covers S ts rest :=
  h.behind [] f

/-- A word and a token behind it. -/
theorem ended (h : Covers S₁ ts (t :: rest)) (f : ∀ u, S₁ u → S (u ++ [t])) :
    Covers S ts rest := by
  obtain ⟨u, rfl, hu⟩ := h.exists_append (List.cons_ne_nil _ _)
  rw [List.append_cons]
  exact .intro (f u hu)

/-- A word that a fixed token separates from the next one. -/
theorem separated (h : Covers S₁ ts (t :: mid)) (h' : Covers S₂ mid rest)
    (f : ∀ u v, S₁ u → S₂ v → S (u ++ t :: v)) : Covers S ts rest := by
  obtain ⟨u, rfl, hu⟩ := h.exists_append (List.cons_ne_nil _ _)
  rw [List.append_cons]
  refine h'.behind (u ++ [t]) fun v hv => ?_
  rw [← List.append_cons]
  exact f u v hu hv

/-- Two words in a row.  The second one begins as what follows the first one does. -/
theorem append (h : Covers S₁ ts mid) (h' : Covers S₂ mid rest)
    (f : ∀ u v, S₁ u → S₂ v → (v ≠ [] → mid ≠ rest ∧ v.head? = mid.head?) → S (u ++ v)) :
    Covers S ts rest := by
  obtain ⟨u, w, rfl, hw, hfill, hS⟩ := h
  obtain ⟨u', w', rfl, hw', hfill', hR⟩ := h'
  -- if anything is put in behind the first word, the second one is empty
  have hswap : w ++ u' = u' ++ w := by
    by_cases hne : w = []
    · rw [hne, List.append_nil, List.nil_append]
    · rw [(List.append_eq_nil_iff.mp (hw hne).1).1, List.append_nil, List.nil_append]
  have hsplit : u ++ u' ++ (w ++ w') = (u ++ w) ++ (u' ++ w') := by
    rw [List.append_assoc, ← List.append_assoc u', ← hswap, List.append_assoc, List.append_assoc]
  refine ⟨u ++ u', w ++ w', (List.append_assoc _ _ _).symm, fun hne => ?_, ?_, ?_⟩
  · by_cases hne' : w' = []
    · rw [hne', List.append_nil] at hne
      obtain ⟨hmid, hu⟩ := hw hne
      exact ⟨(List.append_eq_nil_iff.mp hmid).2, List.append_ne_nil_of_left_ne_nil hu u'⟩
    · exact ⟨(hw' hne').1, List.append_ne_nil_of_right_ne_nil u (hw' hne').2⟩
  · exact fun t ht => (List.mem_append.mp ht).elim (hfill t) (hfill' t)
  · rw [hsplit]
    refine f _ _ hS hR fun hne => ?_
    have hu' : u' ≠ [] := by
      intro hnil
      rw [hnil, List.nil_append] at hne
      exact (hw' hne).2 hnil
    obtain ⟨t, us, rfl⟩ := List.exists_cons_of_ne_nil hu'
    exact ⟨fun heq => hu' (List.append_left_eq_self.mp heq), rfl⟩

end Covers

/-- Behind every operand the token and the others make a longer one. -/
def Lengthens (t : Token) (v : List Token) : Prop :=
  ∀ u, Spans operand u → Spans operand (u ++ t :: v)

/-- **A word hardly depends on what follows.**  In front of something it is a word in front of
everything; at the end of a text it becomes one with closing braces behind it. -/
theorem Derives.covers (h : Derives s ts rest) : Covers (Spans s) ts rest := by
  induction h with
  | none => exact .intro (u := []) .none
  | ended _ semicolon _ ih ih' => exact ih.separated ih' fun u v hu hv => hu.ended semicolon hv
  | unended _ apart _ ih ih' =>
    refine ih.append ih' fun u v hu hv hhead => hu.unended (fun t ht => ?_) hv
    have hne : v ≠ [] := by
      rintro rfl
      cases ht
    exact apart (hhead hne).1 t ((hhead hne).2 ▸ ht)
  | @letSentence _ _ word name sign hw hn hs _ ih =>
    exact ih.behind [word, name, sign] fun v => .letSentence hw hn hs
  | @returnSentence _ _ word hw _ ih => exact ih.behind [word] fun v => .returnSentence hw
  | expressionSentence _ ih => exact ih.whole fun v => .expressionSentence
  | single _ ih => exact ih.whole fun v => .single
  | operation _ operator _ ih ih' =>
    exact ih.separated ih' fun u v hu hv => hu.operation operator (.single hv)
  | @prefixed _ _ t operator _ ih => exact ih.behind [t] fun v => .prefixed operator
  | plain _ ih => exact ih.whole fun v => .plain
  | simple _ ih => exact ih.whole fun v => .simple
  | @call _ ts' rest lp _ _ hl _ hr ih ih' =>
    have arguments : Covers (Lengthens lp) ts' rest :=
      ih'.ended fun v hv u hu => hu.call hl hv hr
    exact ih.separated arguments fun u v hu hv => hv u hu
  | @index _ ts' rest lb _ _ hl _ hr ih ih' =>
    have subscript : Covers (Lengthens lb) ts' rest :=
      ih'.ended fun v hv u hu => hu.index hl hv hr
    exact ih.separated subscript fun u v hu hv => hv u hu
  | @word _ t h => exact .intro (u := [t]) (.word h)
  | @integer _ t h range => exact .intro (u := [t]) (.integer h range)
  | @grouped _ _ lp _ hl _ hr ih =>
    exact (ih.ended fun u hu => hu.grouped hl hr).behind [lp] fun v => id
  | @conditional _ _ _ word lp _ hw hl _ hr _ ih ih' =>
    exact (ih.separated ih' fun u v hu hv => hu.conditional hw hl hr hv).behind
      [word, lp] fun v => id
  | @alternative _ ts' _ rest word lp rp other hw hl _ hr _ ho _ ih ih' ih'' =>
    have blocks : Covers (fun v => ∀ u, Spans expression u →
        Spans primary (word :: lp :: (u ++ rp :: v))) ts' rest :=
      ih'.separated ih'' fun b a hb ha u hu => hu.alternative hw hl hr hb ho ha
    exact (ih.separated blocks fun u v hu hv => hv u hu).behind [word, lp] fun v => id
  | @function _ _ _ word lp _ hw hl _ hr _ ih ih' =>
    exact (ih.separated ih' fun u v hu hv => hu.function hw hl hr hv).behind
      [word, lp] fun v => id
  | @array _ _ lb _ hl _ hr ih =>
    exact (ih.ended fun u hu => hu.array hl hr).behind [lb] fun v => id
  | @hash _ _ lb _ hl _ hr ih =>
    exact (ih.ended fun u hu => hu.hash hl hr).behind [lb] fun v => id
  | noItem => exact .intro (u := []) .noItem
  | someItems _ _ ih ih' => exact ih.append ih' fun u v hu hv _ => hu.someItems hv
  | lastItem => exact .intro (u := []) .lastItem
  | @nextItem _ _ _ comma hc _ _ ih ih' =>
    exact (ih.append ih' fun u v hu hv _ => hu.nextItem hc hv).behind [comma] fun v => id
  | @closed _ _ lb _ hl _ hr ih =>
    exact (ih.ended fun u hu => hu.closed hl hr).behind [lb] fun v => id
  | @unclosed _ lb hl _ ih =>
    -- the brace is put in behind whatever is put in further inside
    obtain ⟨u, w, rfl, -, hfill, hS⟩ := ih
    refine ⟨lb :: u, w ++ [sign '}'], rfl, fun _ => ⟨rfl, List.cons_ne_nil _ _⟩, ?_, ?_⟩
    · intro t ht
      rcases List.mem_append.mp ht with ht | ht
      · exact hfill t ht
      · exact List.mem_singleton.mp ht ▸ (by decide : Filler (sign '}'))
    · rw [List.cons_append, ← List.append_assoc]
      exact .closed hl hS (by decide)
  | noParameter => exact .intro (u := []) .noParameter
  | @someParameters _ _ name hn _ ih => exact ih.behind [name] fun v => .someParameters hn
  | lastParameter => exact .intro (u := []) .lastParameter
  | @nextParameter _ _ comma name hc hn _ ih =>
    exact ih.behind [comma, name] fun v => .nextParameter hc hn
  | noPair => exact .intro (u := []) .noPair
  | lastPair _ ih => exact ih.whole fun v => .lastPair
  | nextPair _ hc _ ih ih' => exact ih.separated ih' fun u v hu hv => hu.nextPair hc hv
  | pair _ hc _ ih ih' => exact ih.separated ih' fun u v hu hv => hu.pair hc hv

/-! ### Words that have been begun -/

/-- With some fillers behind them the tokens are of `S`. -/
def Mends (S : List Token → Prop) (u : List Token) : Prop :=
  ∃ w, (∀ t ∈ w, Filler t) ∧ S (u ++ w)

/-- The tokens in front of the one that the complaint is about can be completed. -/
def Stalled (S : List Token → Prop) (ts : List Token) (c : Complaint) : Prop :=
  ∃ u rest, ts = u ++ rest ∧ rest.head? = c.token? ∧ Mends S u

section Stalled

variable {S R : List Token → Prop}

/-- A complaint about the first token. -/
theorem Stalled.intro {w : List Token} (hc : ts.head? = c.token?) (hw : ∀ t ∈ w, Filler t)
    (h : S w) : Stalled S ts c :=
  ⟨[], ts, rfl, hc, w, hw, h⟩

/-- Some tokens in front, and fillers behind. -/
theorem Stalled.inside (h : Stalled S ts c) (pre post : List Token)
    (hpost : ∀ t ∈ post, Filler t) (f : ∀ v, S v → R (pre ++ (v ++ post))) :
    Stalled R (pre ++ ts) c := by
  obtain ⟨u, rest, rfl, hc, w, hw, hS⟩ := h
  refine ⟨pre ++ u, rest, (List.append_assoc _ _ _).symm, hc, w ++ post, fun t ht => ?_, ?_⟩
  · exact (List.mem_append.mp ht).elim (hw t) (hpost t)
  · rw [List.append_assoc, ← List.append_assoc u]
    exact f _ hS

theorem Stalled.behind (h : Stalled S ts c) (pre : List Token) (f : ∀ v, S v → R (pre ++ v)) :
    Stalled R (pre ++ ts) c :=
  h.inside pre [] (List.forall_mem_nil _) fun v hv => by
    rw [List.append_nil]
    exact f v hv

theorem Stalled.whole (h : Stalled S ts c) (f : ∀ v, S v → R v) : Stalled R ts c :=
  h.behind [] f

/-- A word and a token behind it, in front of what has been begun. -/
theorem Stalled.separated {S₁ : List Token → Prop} (h : Stalled S mid c)
    (first : Covers S₁ ts (t :: mid)) (f : ∀ u v, S₁ u → S v → R (u ++ t :: v)) :
    Stalled R ts c := by
  obtain ⟨u, rfl, hu⟩ := first.exists_append (List.cons_ne_nil _ _)
  rw [List.append_cons]
  refine h.behind (u ++ [t]) fun v hv => ?_
  rw [← List.append_cons]
  exact f u v hu hv

/-- A complaint about what follows a word. -/
theorem Covers.stalled (h : Covers S ts rest) (hc : rest.head? = c.token?) : Stalled S ts c := by
  obtain ⟨u, w, rfl, -, hw, hS⟩ := h
  exact ⟨u, rest, rfl, hc, w, hw, hS⟩

/-- What can be completed to something that can be completed. -/
theorem Stalled.collapse (h : Stalled (Mends S) ts c) : Stalled S ts c := by
  obtain ⟨u, rest, rfl, hc, w, hw, w', hw', hS⟩ := h
  refine ⟨u, rest, rfl, hc, w ++ w', fun t ht => ?_, by rwa [← List.append_assoc]⟩
  exact (List.mem_append.mp ht).elim (hw t) (hw' t)

/-- A word in front of what has been begun, which begins as what follows the word does. -/
theorem Stalled.append {S₁ : List Token → Prop} (h : Stalled S mid c) (first : Covers S₁ ts mid)
    (f : ∀ u v, S₁ u → Mends S v → (v ≠ [] → v.head? = mid.head?) → Mends R (u ++ v)) :
    Stalled R ts c := by
  obtain ⟨u', rest, rfl, hc, hmends⟩ := h
  have second : Covers (Mends S) (u' ++ rest) rest := .intro hmends
  refine ((first.append second fun u v hu hv hhead => ?_).stalled hc).collapse
  exact f u v hu hv fun hne => (hhead hne).2

theorem Stalled.behind_word {S₁ : List Token → Prop} (h : Stalled S mid c)
    (first : Covers S₁ ts mid) (f : ∀ u v, S₁ u → S v → R (u ++ v)) : Stalled R ts c := by
  refine h.append first fun u v hu hv _ => ?_
  obtain ⟨w, hw, hS⟩ := hv
  exact ⟨w, hw, by rw [List.append_assoc]; exact f u _ hu hS⟩

/-- Statements that have been begun behind one without a semicolon. -/
theorem Stalled.unended (h : Stalled (Spans statements) mid c)
    (first : Covers (Spans sentence) ts mid) (apart : ∀ t ∈ mid.head?, ¬ Continues t.kind) :
    Stalled (Spans statements) ts c := by
  refine h.append first fun u v hu hv hhead => ?_
  by_cases hne : v = []
  · rw [hne]
    exact ⟨[], List.forall_mem_nil _, by
      rw [List.append_nil]
      exact hu.unended (fun t ht => nomatch ht) .none⟩
  · obtain ⟨w, hw, hS⟩ := hv
    refine ⟨w, hw, ?_⟩
    rw [List.append_assoc]
    refine hu.unended (fun t ht => apart t (hhead hne ▸ ?_)) hS
    obtain ⟨s, v, rfl⟩ := List.exists_cons_of_ne_nil hne
    exact ht

end Stalled

end Monkey.Grammar
