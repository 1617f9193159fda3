import Monkey.Proofs.Syntax.Printed

/-!
# Chains of operators

A row of operands with operators in between is read as one tree only: each operator binds its
left operand at least as tightly as it binds itself, and its right operand more tightly.  So
operators that bind more tightly go deeper, and those that bind alike group to the left.

## Main definitions

* `Chain` — operands with operators in between.
* `Formula.chain` — the chain of a formula, from left to right.
* `Formula.Grouped` — the formula groups its chain as the operators bind.
* `Chain.group` — the formula that does, one operand after another.

## Main results

* `Formula.pieces_of_grouped` — a grouped formula needs no parentheses between its operands.
* `readsAs_text_and_chain` — formulas and chains are read as they should be.
-/

namespace Monkey

/-- Formulas without an operator in the middle. -/
def Formula.IsOperand (e : Formula) : Prop := 6 ≤ e.rank

/-- Operands with operators in between. -/
@[ext] structure Chain where
  first : Formula
  others : List (Formula.Operator × Formula)
  isOperand_first : first.IsOperand
  isOperand_others : ∀ x ∈ others, x.2.IsOperand

namespace Chain

/-- An operand alone. -/
def single (e : Formula) (he : e.IsOperand) : Chain :=
  ⟨e, [], he, fun _ hx => absurd hx List.not_mem_nil⟩

/-- Two chains with an operator in between. -/
def join (c : Chain) (op : Formula.Operator) (d : Chain) : Chain where
  first := c.first
  others := c.others ++ (op, d.first) :: d.others
  isOperand_first := c.isOperand_first
  isOperand_others := by
    intro x hx
    rcases List.mem_append.mp hx with hx | hx
    · exact c.isOperand_others x hx
    · rcases List.mem_cons.mp hx with rfl | hx
      · exact d.isOperand_first
      · exact d.isOperand_others x hx

/-- An operator and the operand behind it, as they are printed. -/
def link (x : Formula.Operator × Formula) : List Piece :=
  .blank ' ' :: .lexeme x.1.lexeme :: .blank ' ' :: x.2.pieces

/-- A chain as it is printed, without parentheses around its operands. -/
def pieces (c : Chain) : List Piece := c.first.pieces ++ c.others.flatMap link

/-- The text of a chain. -/
def text (c : Chain) : String := String.ofList (Piece.render c.pieces)

theorem join_assoc (c : Chain) (op op' : Formula.Operator) (d e : Chain) :
    c.join op (d.join op' e) = (c.join op d).join op' e := by
  refine Chain.ext rfl ?_
  simp only [join, List.append_assoc, List.cons_append]

theorem pieces_join (c : Chain) (op : Formula.Operator) (d : Chain) :
    (c.join op d).pieces = c.pieces ++
      .blank ' ' :: .lexeme op.lexeme :: .blank ' ' :: d.pieces := by
  simp only [pieces, join, link, List.flatMap_append, List.flatMap_cons, List.append_assoc,
    List.cons_append]

end Chain

namespace Formula

/-- The chain of a formula, from left to right. -/
def chain : Formula → Chain
  | operation op l r => l.chain.join op r.chain
  | name w => .single (name w) (Nat.le_succ 6)
  | number d => .single (number d) (Nat.le_succ 6)
  | boolean b => .single (boolean b) (Nat.le_succ 6)
  | signed s e => .single (signed s e) (Nat.le_refl 6)
  | call f es => .single (call f es) (Nat.le_succ 6)
  | index l i => .single (index l i) (Nat.le_succ 6)

/-- The formula groups its chain as the operators bind: a left operand at least as tightly as
the operator, a right operand more tightly. -/
def Grouped : Formula → Prop
  | operation op l r => op.rank ≤ l.rank ∧ op.rank < r.rank ∧ l.Grouped ∧ r.Grouped
  | _ => True

/-- A formula with one more operator and operand on the right.  The operator takes what stands
at the right end and binds less tightly than the operator does not. -/
def extend : Formula → Operator → Formula → Formula
  | operation op' l r, op, e =>
    if op.rank ≤ op'.rank then operation op (operation op' l r) e
    else operation op' l (r.extend op e)
  | f, op, e => operation op f e

end Formula

/-- The formula that groups a chain: its operands are taken up one after another. -/
def Chain.group (c : Chain) : Formula :=
  c.others.foldl (fun e x => e.extend x.1 x.2) c.first

namespace Formula

/-- Induction along the operators of a formula, down to the operands of its chain. -/
theorem chain_induction {motive : Formula → Prop} (operand : ∀ e : Formula, e.IsOperand → motive e)
    (operation : ∀ op l r, motive l → motive r → motive (operation op l r)) (e : Formula) :
    motive e := by
  cases e with
  | operation op l r =>
    exact operation op l r (chain_induction operand operation l)
      (chain_induction operand operation r)
  | signed s e => exact operand _ (Nat.le_refl 6)
  | _ => exact operand _ (Nat.le_succ 6)

theorem not_isOperand_operation (op : Operator) (l r : Formula) :
    ¬ (operation op l r).IsOperand := by
  intro h
  have hop : op.rank ≤ 5 := (rank_operator op).2
  exact absurd (Nat.le_trans h hop) (by decide)

variable {e f : Formula} {op : Operator}

theorem grouped_of_isOperand (h : e.IsOperand) : e.Grouped := by
  cases e with
  | operation op l r => exact absurd h (not_isOperand_operation op l r)
  | _ => trivial

theorem chain_of_isOperand (h : e.IsOperand) : e.chain = .single e h := by
  cases e with
  | operation op l r => exact absurd h (not_isOperand_operation op l r)
  | _ => rfl

theorem extend_of_isOperand (h : f.IsOperand) : f.extend op e = operation op f e := by
  cases f with
  | operation op l r => exact absurd h (not_isOperand_operation op l r)
  | _ => rfl

/-! ### Grouping -/

/-- An operator that is added on the right goes to its place. -/
theorem grouped_extend (hf : f.Grouped) (he : e.IsOperand) :
    (f.extend op e).Grouped ∧ min f.rank op.rank ≤ (f.extend op e).rank := by
  have hop : op.rank ≤ 5 := (rank_operator op).2
  have tight : op.rank < e.rank := Nat.lt_of_le_of_lt hop he
  induction f using chain_induction with
  | operand f hf' =>
    rw [extend_of_isOperand hf']
    have loose : op.rank ≤ f.rank := Nat.le_trans (Nat.le_succ_of_le hop) hf'
    exact ⟨⟨loose, tight, hf, grouped_of_isOperand he⟩, Nat.min_le_right _ _⟩
  | operation op' l r _ ih =>
    obtain ⟨hl, hr, gl, gr⟩ := hf
    unfold extend
    split
    · next hle =>
      exact ⟨⟨hle, tight, ⟨hl, hr, gl, gr⟩, grouped_of_isOperand he⟩, Nat.min_le_right _ _⟩
    · next hlt =>
      -- the right operand still binds more tightly than `op'`, with `op` inside it
      obtain ⟨g, hrank⟩ := ih gr
      have : op'.rank < min r.rank op.rank := by omega
      exact ⟨⟨hl, Nat.lt_of_lt_of_le this hrank, gl, g⟩, Nat.min_le_left _ _⟩

theorem chain_extend (he : e.IsOperand) :
    (f.extend op e).chain = f.chain.join op (.single e he) := by
  induction f using chain_induction with
  | operand f hf =>
    rw [extend_of_isOperand hf, chain, chain_of_isOperand he]
  | operation op' l r _ ih =>
    unfold extend
    split
    · rw [chain, chain_of_isOperand he]
    · rw [chain, ih, chain, Chain.join_assoc]

/-- A grouped formula needs no parentheses between its operands. -/
theorem pieces_of_grouped (h : e.Grouped) : e.pieces = e.chain.pieces := by
  induction e using chain_induction with
  | operand e he =>
    rw [chain_of_isOperand he]
    exact (List.append_nil _).symm
  | operation op l r ihl ihr =>
    -- neither operand is put in parentheses
    obtain ⟨hl, hr, gl, gr⟩ := h
    rw [pieces, enclose, if_neg (Nat.not_lt.mpr hl), enclose, if_neg (Nat.not_le.mpr hr), ihl gl,
      ihr gr, chain, Chain.pieces_join]

end Formula

namespace Chain

open Formula

variable (c : Chain)

/-- What is true of the operands that have been taken up stays true of all of them. -/
theorem foldl_extend {e : Formula} (he : e.Grouped) {xs : List (Operator × Formula)}
    (hxs : ∀ x ∈ xs, x.2.IsOperand) :
    (xs.foldl (fun e x => e.extend x.1 x.2) e).Grouped ∧
      (xs.foldl (fun e x => e.extend x.1 x.2) e).chain.first = e.chain.first ∧
      (xs.foldl (fun e x => e.extend x.1 x.2) e).chain.others = e.chain.others ++ xs := by
  induction xs generalizing e with
  | nil => exact ⟨he, rfl, (List.append_nil _).symm⟩
  | cons x xs ih =>
    obtain ⟨hx, hxs⟩ := List.forall_mem_cons.mp hxs
    obtain ⟨g, hfirst, hothers⟩ := ih (grouped_extend he hx).1 hxs
    rw [chain_extend hx] at hfirst hothers
    refine ⟨g, hfirst, hothers.trans ?_⟩
    rw [join, single, List.append_assoc]
    rfl

theorem grouped_group : c.group.Grouped :=
  (foldl_extend (grouped_of_isOperand c.isOperand_first) c.isOperand_others).1

theorem chain_group : c.group.chain = c := by
  obtain ⟨-, hfirst, hothers⟩ :=
    foldl_extend (grouped_of_isOperand c.isOperand_first) c.isOperand_others
  rw [chain_of_isOperand c.isOperand_first] at hfirst hothers
  exact Chain.ext hfirst hothers

end Chain

/-! ### Reading -/

/-- A text is read as one expression at most. -/
theorem ReadsAs.unique {text : String} {n m : Node} (hn : ReadsAs text n) (hm : ReadsAs text m) :
    n = m := by
  -- at some depth the text is read, and what is read then is both
  obtain ⟨p, hp⟩ := Option.isSome_iff_exists.mp (hn.1 _ (Nat.lt_succ_self _))
  obtain ⟨-, t, a, ha, rfl⟩ := hn.2 _ p hp
  obtain ⟨-, t', b, hb, rfl⟩ := hm.2 _ p hp
  rw [ha] at hb
  obtain ⟨hs, -⟩ := List.cons.inj (Node.program.inj hb)
  rw [(Node.expressionStatement.inj hs).2]

/-- The text of a chain is read as any formula that groups it. -/
theorem Formula.readsAs_chain {e : Formula} (h : e.Grouped) : ReadsAs e.chain.text e.tree := by
  rw [Chain.text, ← pieces_of_grouped h]
  exact e.readsAs_text

/-- **Operators bind as they should.**  A formula that is printed with the parentheses that it
needs is read as itself; and a chain of operators is read as the formula that groups it as the
operators bind, of which there is one. -/
theorem readsAs_text_and_chain :
    (∀ e : Formula, ReadsAs e.text e.tree) ∧
    ∀ c : Chain, ∃ e : Formula, e.Grouped ∧ e.chain = c ∧ ReadsAs c.text e.tree ∧
      ∀ f : Formula, f.Grouped → f.chain = c → f = e := by
  refine ⟨Formula.readsAs_text, fun c => ?_⟩
  have hread := Formula.readsAs_chain c.grouped_group
  rw [c.chain_group] at hread
  refine ⟨c.group, c.grouped_group, c.chain_group, hread, fun f hf hc => ?_⟩
  -- two formulas that group one chain have one text, and that is read once
  have hread' := Formula.readsAs_chain hf
  rw [hc] at hread'
  exact Formula.tree_injective (hread'.unique hread)

end Monkey
