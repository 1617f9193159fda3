import Monkey.Proofs.Evaluation.Position
import Monkey.Proofs.Value.Entries

/-!
# Hash literals

A hash literal evaluates its pairs from left to right, in each pair the key before the value.  If
no signal arises on the way, and every key is an integer, a boolean or a string, then there is a
new hash: the entries that are made from the row of pairs.

## Main definitions

* `Evaluation.PairsCome` — the pairs of a hash literal come to pairs of keys and values.

## Main results

* `Evaluation.entries_of_pairsCome` — the entries of a hash literal are made from its pairs.
* `Evaluation.hash_literal_is_last_write_wins` — the hash is a map in which the last pair of each
  key counts.
-/

namespace Monkey.Evaluation

open Value

variable {eval : Evaluator} {scope : ScopeId} {s t : Store} {pairs : List (Node × Node)}
  {ps : List (Value × Value)}

/-- From one store to another, the expressions of some pairs come to keys that can be used and to
values that are no signals. -/
inductive PairsCome (eval : Evaluator) (scope : ScopeId) :
    Store → List (Node × Node) → List (Value × Value) → Store → Prop
  | nil {s : Store} : PairsCome eval scope s [] [] s
  | cons {key val : Node} {k v : Value} {pairs : List (Node × Node)} {ps : List (Value × Value)}
    {s s₁ s₂ t : Store} (hkey : value eval key scope s = .ok k s₁) (usable : k.kind ∈ keyKinds)
    (hval : value eval val scope s₁ = .ok v s₂) (hv : v.isSignal = false)
    (others : PairsCome eval scope s₂ pairs ps t) :
    PairsCome eval scope s ((key, val) :: pairs) ((k, v) :: ps) t

/-- **The entries of a hash literal are made from its pairs**, behind those that are done. -/
theorem entries_of_pairsCome (h : PairsCome eval scope s pairs ps t)
    (done : List (Value × Value)) :
    entries eval scope pairs done s = .ok (.ok (putEntries done ps)) t := by
  induction h generalizing done with
  | nil => rfl
  | @cons key val k v pairs ps s s₁ s₂ t hkey usable hval hv _ ih =>
    have hk : ¬k.isSignal = true := Bool.eq_false_iff.mp (isSignal_of_mem_keyKinds usable)
    have hnone : ¬k.key?.isNone = true := by
      rw [Option.isNone_iff_eq_none, key?_eq_none_iff, not_not]
      exact usable
    rw [entries, bind_of_ok hkey, if_neg hk, if_neg hnone, bind_of_ok hval,
      if_neg (Bool.eq_false_iff.mp hv), ih]
    rfl

/-- The keys of the pairs can all be used. -/
theorem PairsCome.usable (h : PairsCome eval scope s pairs ps t) :
    ∀ p ∈ ps, p.1.kind ∈ keyKinds := by
  induction h with
  | nil => exact List.forall_mem_nil _
  | cons _ usable _ _ _ ih => exact List.forall_mem_cons.mpr ⟨usable, ih⟩

/-- **A hash literal is a map in which the last pair of each key counts.**  Each key has one entry,
in the order in which the keys came first, and the entry is the last pair of its key.  Under a
value of one of the three kinds of key the value of that pair is found, or null if there is no
pair; a value of any other kind is an error.  A key is the kind with the content: only equal values
share an entry. -/
theorem hash_literal_is_last_write_wins (h : PairsCome eval scope s pairs ps t) (depth : Nat)
    (token : Token) :
    ∃ es, evalNode eval depth (.hash token pairs) scope s = .ok (some (.hash t.next es)) t.issue ∧
      keys es = (keys ps).eraseDups ∧ (keys es).Nodup ∧
      (∀ e ∈ es, lastUnder? ps e.1.key? = some e) ∧
      (∀ id k, k.kind ∈ keyKinds →
        subscript (.hash id es) k = .ok (((lastUnder? ps k.key?).map Prod.snd).getD .null)) ∧
      (∀ id k, k.kind ∉ keyKinds →
        ∃ fault, subscript (.hash id es) k = .error fault ∧
          fault.message = "unusable as hash key: " ++ k.kind.name) ∧
      ∀ p ∈ ps, ∀ k, p.1.key? = k.key? ↔ p.1 = k := by
  refine ⟨putEntries [] ps, ?_, keys_putEntries ps, nodup_keys_putEntries ps,
    fun _ => lastUnder?_of_mem_putEntries, fun id _ => subscript_putEntries id ps,
    fun id k hk => ⟨_, subscript_of_unusable id _ hk, rfl⟩,
    fun p hp _ => key?_eq_iff (h.usable p hp)⟩
  rw [evalNode, bind_of_ok (entries_of_pairsCome h [])]
  rfl

/-- The number one, true and the text of one are three keys, and the second pair of the number
counts. -/
theorem hash_literal_is_last_write_wins_kinds :
    let number (n : Nat) : Node := .integer default n
    let pairs := [(number 1, number 5), (.boolean default true, number 6),
      (.string default "1", number 7), (number 1, number 8)]
    ∃ ps, PairsCome (Evaluation.eval 1) 0 .empty pairs ps .empty ∧
      ∃ es, Evaluation.eval 2 (.hash default pairs) 0 .empty =
          .ok (some (.hash 0 es)) Store.empty.issue ∧
        keys es = [some (.integer 1), some (.boolean true), some (.string "1")] ∧
        subscript (.hash 0 es) (.integer 1) = .ok (.integer 8) := by
  intro number pairs
  have hpairs : PairsCome (Evaluation.eval 1) 0 .empty pairs
      [(.integer 1, .integer 5), (.boolean true, .integer 6), (.string "1", .integer 7),
        (.integer 1, .integer 8)] .empty :=
    .cons rfl (by decide) rfl rfl (.cons rfl (by decide) rfl rfl
      (.cons rfl (by decide) rfl rfl (.cons rfl (by decide) rfl rfl .nil)))
  obtain ⟨es, heval, hkeys, -, -, hfound, -⟩ := hash_literal_is_last_write_wins hpairs 1 default
  exact ⟨_, hpairs, es, heval, hkeys.trans (by decide), hfound 0 (.integer 1) (by decide)⟩

end Monkey.Evaluation
