import Mathlib
import Monkey.Proofs.Syntax.Parts
import Monkey.Syntax.Obstacle

/-!
# Outlines determine trees

An outline shows of a tree everything but its tokens.  Labels tell the nodes with children apart,
and sorts the leaves; what is absent has a place of its own, except for an alternative, which is
then left out at the end.  So the tree can be read off its outline.  Only a truth value is shown
by its token, so its token has to spell it.

## Main definitions

* `Node.erased` — a tree with no token left.
* `Node.Outlined` — a tree of known kinds in which the truth values are spelled as they are.
* `Outline.tree` — the tree that an outline shows.

## Main results

* `Node.tree_outline` — the outline of a tree shows that tree.
* `Node.outline_determines_tree` — trees with the same outline are the same but for their tokens.
-/

namespace Monkey

namespace Outline

mutual

/-- The tree that an outline shows, without its tokens. -/
def tree : Outline → Node
  | leaf .ident name => .identifier default name
  | leaf .int digits => .integer default (digits.toInt?.getD 0)
  | leaf .boolean word => .boolean default (word = "true")
  | leaf .string value => .string default value
  | branch "program" statements => .program (trees statements)
  | branch "let" [name, value] => .letStatement default (tree name) (tree value)
  | branch "return" [value] => .returnStatement default (tree value)
  | branch "expr_stmt" [expression] => .expressionStatement default (tree expression)
  | branch "block" statements => .block default (trees statements)
  | branch "prefix" [leaf .op operator, right] => .prefixed default operator (tree right)
  | branch "infix" [left, leaf .op operator, right] =>
    .infixed default (tree left) operator (tree right)
  | branch "if" [condition, consequence] =>
    .conditional default (tree condition) (tree consequence) .missing
  | branch "if" [condition, consequence, alternative] =>
    .conditional default (tree condition) (tree consequence) (tree alternative)
  | branch "fn" [branch "params" parameters, body] =>
    .function default (trees parameters) (tree body)
  | branch "call" [callee, branch "args" arguments] =>
    .call default (tree callee) (trees arguments)
  | branch "array" elements => .array default (trees elements)
  | branch "hash" pairs => .hash default (pairTrees pairs)
  | branch "index" [left, subscript] => .index default (tree left) (tree subscript)
  | _ => .missing

/-- The trees that some outlines show. -/
def trees : List Outline → List Node
  | [] => []
  | o :: os => tree o :: trees os

/-- The pairs of trees that the pairs of a hash show. -/
def pairTrees : List Outline → List (Node × Node)
  | branch "pair" [key, value] :: os => (tree key, tree value) :: pairTrees os
  | _ => []

end

end Outline

namespace Node

/-- A tree with no token left. -/
def erased (n : Node) : Node := n.mapTokens fun _ => default

/-- A tree of known kinds in which the truth values are spelled as they are. -/
structure Outlined (n : Node) : Prop where
  known : ∀ token, ¬ n.HasPart (.bare token)
  spelled : ∀ token value, n.HasPart (.boolean token value) →
    token.literal = if value then "true" else "false"

theorem outlined_missing : Outlined missing where
  known token h := by
    cases h with
    | inside mem => cases mem
  spelled token value h := by
    cases h with
    | inside mem => cases mem

variable {n m : Node}

theorem Outlined.child (h : n.Outlined) (hm : m ∈ n.children) : m.Outlined where
  known token hpart := h.known token (.inside hm hpart)
  spelled token value hpart := h.spelled token value (.inside hm hpart)

/-- A node whose children have outlines has one, unless it is itself of no kind or a truth value
that is spelled otherwise. -/
theorem Outlined.of_children (hknown : ∀ token, n ≠ bare token)
    (hspelled : ∀ token value, n = boolean token value →
      token.literal = if value then "true" else "false")
    (h : ∀ m ∈ n.children, m.Outlined) : n.Outlined where
  known token hpart := by
    cases hpart with
    | self => exact hknown token rfl
    | inside hm hpart => exact (h _ hm).known token hpart
  spelled token value hpart := by
    cases hpart with
    | self => exact hspelled token value rfl
    | inside hm hpart => exact (h _ hm).spelled token value hpart

/-- What stands where a node has a place for a child is missing, or it is a child. -/
theorem Outlined.slot (h : n.Outlined) (hm : m.isPresent → m ∈ n.children) : m.Outlined := by
  by_cases hpresent : m.isPresent
  · exact h.child (hm hpresent)
  · have hmissing : m = missing := by simpa using hpresent
    exact hmissing ▸ outlined_missing

mutual

/-- **The outline of a tree shows that tree**, without its tokens. -/
theorem tree_outline (n : Node) (h : n.Outlined) : n.outline.tree = n.erased := by
  cases n with
  | missing => rfl
  | bare token => exact absurd (.self _) (h.known token)
  | program statements =>
    rw [outline, Outline.tree, erased, mapTokens, trees_outlines statements fun m hm => h.child hm]
  | letStatement token name value =>
    have hname : name.Outlined := h.slot (by simp [children])
    have hvalue : value.Outlined := h.slot (by simp [children])
    rw [outline, Outline.tree, tree_outline name hname, tree_outline value hvalue]
    rfl
  | returnStatement token value =>
    have hvalue : value.Outlined := h.slot (by simp [children])
    rw [outline, Outline.tree, tree_outline value hvalue]
    rfl
  | expressionStatement token expression =>
    have hexpression : expression.Outlined := h.slot (by simp [children])
    rw [outline, Outline.tree, tree_outline expression hexpression]
    rfl
  | block token statements =>
    rw [outline, Outline.tree, trees_outlines statements fun m hm => h.child hm]
    rfl
  | identifier token name | string token value => rfl
  | integer token value =>
    have hread : (toString value).toInt?.getD 0 = value := by
      rw [Int.toString_eq_repr, Int.toInt?_repr, Option.getD_some]
    rw [outline, Outline.tree, hread]
    rfl
  | boolean token value =>
    have hspelled := h.spelled token value (.self _)
    rw [outline, Outline.tree, hspelled]
    cases value <;> rfl
  | prefixed token operator right =>
    have hright : right.Outlined := h.slot (by simp [children])
    rw [outline, Outline.tree, tree_outline right hright]
    rfl
  | infixed token left operator right =>
    have hleft : left.Outlined := h.slot (by simp [children])
    have hright : right.Outlined := h.slot (by simp [children])
    rw [outline, Outline.tree, tree_outline left hleft, tree_outline right hright]
    rfl
  | conditional token condition consequence alternative =>
    have hcondition : condition.Outlined := h.slot (by simp [children])
    have hconsequence : consequence.Outlined := h.slot (by simp [children])
    have halternative : alternative.Outlined := h.slot (by simp [children])
    -- An absent alternative has no place in the outline.
    cases hmissing : alternative.isMissing with
    | true =>
      rw [outline, hmissing, if_pos rfl, Outline.tree, tree_outline condition hcondition,
        tree_outline consequence hconsequence, isMissing_iff.mp hmissing]
      rfl
    | false =>
      rw [outline, hmissing, if_neg Bool.false_ne_true, Outline.tree,
        tree_outline condition hcondition, tree_outline consequence hconsequence,
        tree_outline alternative halternative]
      rfl
  | function token parameters body =>
    have hparameters : ∀ m ∈ parameters, m.Outlined := fun m hm => h.child (by simp [children, hm])
    have hbody : body.Outlined := h.slot (by simp +contextual [children])
    rw [outline, Outline.tree, trees_outlines parameters hparameters, tree_outline body hbody]
    rfl
  | call token callee arguments =>
    have hcallee : callee.Outlined := h.slot (by simp +contextual [children])
    have harguments : ∀ m ∈ arguments, m.Outlined := fun m hm => h.child (by simp [children, hm])
    rw [outline, Outline.tree, tree_outline callee hcallee, trees_outlines arguments harguments]
    rfl
  | array token elements =>
    rw [outline, Outline.tree, trees_outlines elements fun m hm => h.child hm]
    rfl
  | hash token pairs =>
    have hpairs : ∀ p ∈ pairs, p.1.Outlined ∧ p.2.Outlined := fun p hp =>
      ⟨h.child (List.mem_flatMap.mpr ⟨p, hp, by simp⟩),
        h.child (List.mem_flatMap.mpr ⟨p, hp, by simp⟩)⟩
    rw [outline, Outline.tree, pairTrees_outlinePairs pairs hpairs]
    rfl
  | index token left subscript =>
    have hleft : left.Outlined := h.slot (by simp [children])
    have hsubscript : subscript.Outlined := h.slot (by simp [children])
    rw [outline, Outline.tree, tree_outline left hleft, tree_outline subscript hsubscript]
    rfl

theorem trees_outlines (ns : List Node) (h : ∀ n ∈ ns, n.Outlined) :
    Outline.trees (outlines ns) = mapTokensAll (fun _ => default) ns := by
  cases ns with
  | nil => rfl
  | cons n ns =>
    obtain ⟨hn, hns⟩ := List.forall_mem_cons.mp h
    rw [outlines, Outline.trees, tree_outline n hn, trees_outlines ns hns]
    rfl

theorem pairTrees_outlinePairs (ps : List (Node × Node))
    (h : ∀ p ∈ ps, p.1.Outlined ∧ p.2.Outlined) :
    Outline.pairTrees (outlinePairs ps) = mapTokensPairs (fun _ => default) ps := by
  cases ps with
  | nil => rfl
  | cons p ps =>
    obtain ⟨⟨hkey, hvalue⟩, hps⟩ := List.forall_mem_cons.mp h
    rw [outlinePairs, Outline.pairTrees, tree_outline p.1 hkey, tree_outline p.2 hvalue,
      pairTrees_outlinePairs ps hps]
    rfl

end

theorem erased_eq_of_outline_eq {p q : Node} (hp : p.Outlined) (hq : q.Outlined)
    (h : p.outline = q.outline) : p.erased = q.erased :=
  calc
    p.erased = p.outline.tree := (tree_outline p hp).symm
    _ = q.outline.tree := by rw [h]
    _ = q.erased := tree_outline q hq

theorem outline_of_outline? {depth : Nat} {o : Outline} (h : n.outline? depth = .ok o) :
    n.outline = o := by
  unfold outline? at h
  split at h
  · cases h
  · exact Except.ok.inj h

/-- **Outlines determine trees.**  If no node of two trees is of no kind, and their truth values
are spelled as they are, then trees with the same outline are the same without their tokens.  That
holds as well of the outlines that are made down to a depth. -/
theorem outline_determines_tree {p q : Node} (hp : p.Outlined) (hq : q.Outlined) :
    (p.outline = q.outline → p.erased = q.erased) ∧
      ∀ depth depth' o, p.outline? depth = .ok o → q.outline? depth' = .ok o →
        p.erased = q.erased := by
  constructor
  · exact erased_eq_of_outline_eq hp hq
  · intro depth depth' o ho ho'
    have hsame : p.outline = q.outline :=
      (outline_of_outline? ho).trans (outline_of_outline? ho').symm
    exact erased_eq_of_outline_eq hp hq hsame

/-- A tree on two different lines, with a name, an alternative and an item left out. -/
theorem outline_determines_tree_lines :
    let tree (line : Nat) : Node :=
      .program [.letStatement ⟨.letWord, "let", line, 1⟩ .missing
        (.conditional ⟨.ifWord, "if", line, 9⟩ (.boolean ⟨.trueWord, "true", line, 13⟩ true)
          (.block ⟨.lbrace, "\x7b", line, 19⟩ []) .missing), .missing]
    (tree 1).Outlined ∧ (tree 2).Outlined ∧
      (∃ o, (tree 1).outline? 9 = .ok o ∧ (tree 2).outline? 8 = .ok o) ∧
      (tree 1).erased = (tree 2).erased := by
  intro tree
  have hblock (token : Token) : (block token []).Outlined := .of_children nofun nofun nofun
  have htrue (line column : Nat) :
      (boolean ⟨.trueWord, "true", line, column⟩ true).Outlined := by
    refine .of_children nofun (fun token value h => ?_) nofun
    obtain ⟨rfl, rfl⟩ := boolean.inj h
    rfl
  have htree (line : Nat) : (tree line).Outlined := by
    refine .of_children nofun nofun (List.forall_mem_cons.mpr ⟨?_,
      List.forall_mem_singleton.mpr outlined_missing⟩)
    refine .of_children nofun nofun (List.forall_mem_singleton.mpr ?_)
    refine .of_children nofun nofun (List.forall_mem_cons.mpr ⟨htrue _ _,
      List.forall_mem_singleton.mpr (hblock _)⟩)
  obtain ⟨h, -⟩ := outline_determines_tree (htree 1) (htree 2)
  exact ⟨htree 1, htree 2, ⟨_, rfl, rfl⟩, h rfl⟩

end Node

end Monkey
