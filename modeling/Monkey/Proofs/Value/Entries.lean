import Mathlib.Data.List.Induction
import Monkey.Value.Operator

/-!
# Entries of a hash

A hash is made from a row of pairs: each of them is put into what the pairs before it have made.
So the last pair of a key wins.  It is found under that key, but stands where the first one of the
key stood.

## Main definitions

* `Value.keyKinds`, `Value.keys` — the kinds that can be used as keys, and the keys of entries.
* `Value.putEntries` — the entries that a row of pairs makes.
* `Value.lastUnder?` — the last pair of a key.

## Main results

* `Value.key?_eq_iff` — values that can be used as keys have the same key only if they are equal.
* `Value.keys_putEntries` — every key is there once, in the order in which the keys came first.
* `Value.lastUnder?_of_mem_putEntries` — every entry is the last pair of its key.
* `Value.subscript_putEntries` — under a key the value of the last pair is found.
-/

namespace Monkey.Value

variable {es ps : List (Value × Value)} {k l v : Value}

/-! ### Keys -/

/-- The kinds of value that can be used as keys. -/
def keyKinds : List Kind := [.integer, .boolean, .string]

theorem isSome_key?_iff : k.key?.isSome ↔ k.kind ∈ keyKinds := by
  cases k <;> simp [key?, kind, keyKinds]

theorem key?_eq_none_iff : k.key? = none ↔ k.kind ∉ keyKinds := by
  rw [← isSome_key?_iff, Bool.not_eq_true, Option.isSome_eq_false_iff, Option.isNone_iff_eq_none]

/-- What can be used as a key is no signal. -/
theorem isSignal_of_mem_keyKinds (h : k.kind ∈ keyKinds) : k.isSignal = false := by
  cases k with
  | returned | error => simp [kind, keyKinds] at h
  | _ => rfl

/-- Keys are told apart by kind and content, as are the values that can be used as keys. -/
theorem key?_eq_iff (h : k.kind ∈ keyKinds) : k.key? = l.key? ↔ k = l := by
  refine ⟨fun heq => ?_, congrArg key?⟩
  obtain ⟨key, hkey⟩ := Option.isSome_iff_exists.mp (isSome_key?_iff.mpr h)
  rw [hkey] at heq
  cases k <;> cases hkey <;> cases l <;> cases heq <;> rfl

/-- Only an integer has the key of an integer. -/
theorem eq_of_key? {n : Int} (h : k.key? = some (.integer n)) : k = .integer n := by
  have heq : (integer n).key? = k.key? := h.symm
  exact ((key?_eq_iff List.mem_cons_self).mp heq).symm

/-- The keys of some entries, in order. -/
def keys (entries : List (Value × Value)) : List (Option Key) := entries.map fun e => e.1.key?

/-! ### One more entry -/

/-- An entry of a new key comes last. -/
theorem putEntry_of_new (h : k.key? ∉ keys es) : putEntry es k v = es ++ [(k, v)] := by
  induction es with
  | nil => rfl
  | cons e es ih =>
    obtain ⟨he, hes⟩ := not_or.mp (mt List.mem_cons.mpr h)
    rw [putEntry, if_neg (Ne.symm he), ih hes, List.cons_append]

theorem keys_putEntry_of_not_mem (h : k.key? ∉ keys es) :
    keys (putEntry es k v) = keys es ++ [k.key?] := by
  rw [putEntry_of_new h, keys, List.map_append]
  rfl

/-- An entry of a key that is there takes the place of the one that is there. -/
theorem keys_putEntry_of_mem (h : k.key? ∈ keys es) : keys (putEntry es k v) = keys es := by
  induction es with
  | nil => cases h
  | cons e es ih =>
    rw [putEntry]
    split
    · next heq => exact congrArg (· :: keys es) heq.symm
    · next hne =>
      exact congrArg (e.1.key? :: ·) (ih ((List.mem_cons.mp h).resolve_left (Ne.symm hne)))

/-- The first entry of a key, behind an entry that was put in. -/
theorem find?_putEntry (key : Option Key) :
    (putEntry es k v).find? (fun e => e.1.key? = key) =
      if k.key? = key then some (k, v) else es.find? fun e => e.1.key? = key := by
  induction es with
  | nil => by_cases h : k.key? = key <;> simp [putEntry, h]
  | cons e es ih =>
    rw [putEntry]
    split
    · next heq => by_cases h : k.key? = key <;> simp [heq, h]
    · next hne =>
      by_cases h : k.key? = key
      · have he : e.1.key? ≠ key := fun heq => hne (heq.trans h.symm)
        simp [ih, h, he]
      · simp [List.find?_cons, ih, h]

/-! ### Rows of pairs -/

/-- The entries that are there when the pairs of a row have been put in, one after another. -/
def putEntries (done ps : List (Value × Value)) : List (Value × Value) :=
  ps.foldl (fun es p => putEntry es p.1 p.2) done

/-- The last pair of a key. -/
def lastUnder? (ps : List (Value × Value)) (key : Option Key) : Option (Value × Value) :=
  ps.findRev? fun p => p.1.key? = key

theorem putEntries_concat (done ps : List (Value × Value)) (p : Value × Value) :
    putEntries done (ps ++ [p]) = putEntry (putEntries done ps) p.1 p.2 := by
  rw [putEntries, List.foldl_append]
  rfl

theorem lastUnder?_concat (ps : List (Value × Value)) (p : Value × Value) (key : Option Key) :
    lastUnder? (ps ++ [p]) key = if p.1.key? = key then some p else lastUnder? ps key := by
  simp only [lastUnder?, List.findRev?_eq_find?_reverse, List.reverse_concat, List.find?_cons]
  by_cases h : p.1.key? = key <;> simp [h]

/-- A pair is the last one of its key if no pair behind it has that key. -/
theorem lastUnder?_append_cons {before after : List (Value × Value)}
    (h : ∀ p ∈ after, p.1.key? ≠ k.key?) :
    lastUnder? (before ++ (k, v) :: after) k.key? = some (k, v) := by
  induction after using List.reverseRecOn with
  | nil => rw [lastUnder?_concat, if_pos rfl]
  | append_singleton ps p ih =>
    obtain ⟨hps, hp⟩ := List.forall_mem_append.mp h
    rw [← List.cons_append, ← List.append_assoc, lastUnder?_concat,
      if_neg (hp p (List.mem_singleton_self p)), ih hps]

theorem eraseDups_concat_of_mem {α : Type} [BEq α] [LawfulBEq α] {as : List α} {a : α}
    (h : a ∈ as) : (as ++ [a]).eraseDups = as.eraseDups := by
  simp [List.eraseDups_append, List.removeAll, h]

theorem eraseDups_concat_of_not_mem {α : Type} [BEq α] [LawfulBEq α] {as : List α} {a : α}
    (h : a ∉ as) : (as ++ [a]).eraseDups = as.eraseDups ++ [a] := by
  simp [List.eraseDups_append, List.removeAll, List.eraseDups_cons, h]

/-- **The keys are there in the order in which they came first.** -/
theorem keys_putEntries (ps : List (Value × Value)) :
    keys (putEntries [] ps) = (keys ps).eraseDups := by
  induction ps using List.reverseRecOn with
  | nil => rfl
  | append_singleton ps p ih =>
    have hkeys : keys (ps ++ [p]) = keys ps ++ [p.1.key?] := List.map_append
    have hmem : p.1.key? ∈ keys (putEntries [] ps) ↔ p.1.key? ∈ keys ps := by
      rw [ih, List.mem_eraseDups]
    rw [putEntries_concat, hkeys]
    by_cases h : p.1.key? ∈ keys ps
    · rw [keys_putEntry_of_mem (hmem.mpr h), eraseDups_concat_of_mem h, ih]
    · rw [keys_putEntry_of_not_mem (mt hmem.mp h), eraseDups_concat_of_not_mem h, ih]

/-- **Every key is there once.** -/
theorem nodup_keys_putEntries (ps : List (Value × Value)) :
    (keys (putEntries [] ps)).Nodup := by
  induction ps using List.reverseRecOn with
  | nil => exact List.nodup_nil
  | append_singleton ps p ih =>
    rw [putEntries_concat]
    by_cases h : p.1.key? ∈ keys (putEntries [] ps)
    · rwa [keys_putEntry_of_mem h]
    · rw [keys_putEntry_of_not_mem h]
      exact (List.perm_append_singleton _ _).nodup_iff.mpr (List.nodup_cons.mpr ⟨h, ih⟩)

/-- The first entry of a key is the last pair of it. -/
theorem find?_putEntries (ps : List (Value × Value)) (key : Option Key) :
    (putEntries [] ps).find? (fun e => e.1.key? = key) = lastUnder? ps key := by
  induction ps using List.reverseRecOn with
  | nil => rfl
  | append_singleton ps p ih => rw [putEntries_concat, find?_putEntry, lastUnder?_concat, ih]

/-- Where every key is there once, an entry is the first one of its key. -/
theorem find?_of_nodup {e : Value × Value} (h : (keys es).Nodup) (he : e ∈ es) :
    es.find? (fun d => d.1.key? = e.1.key?) = some e := by
  induction es with
  | nil => cases he
  | cons d es ih =>
    obtain ⟨hd, hes⟩ := List.nodup_cons.mp h
    rcases List.mem_cons.mp he with rfl | he
    · simp
    · have hne : d.1.key? ≠ e.1.key? := fun heq => hd (List.mem_map.mpr ⟨e, he, heq.symm⟩)
      rw [List.find?_cons_of_neg (by simpa using hne), ih hes he]

/-- **Every entry is the last pair of its key.** -/
theorem lastUnder?_of_mem_putEntries {e : Value × Value} (h : e ∈ putEntries [] ps) :
    lastUnder? ps e.1.key? = some e := by
  rw [← find?_putEntries, find?_of_nodup (nodup_keys_putEntries ps) h]

/-! ### Looking up -/

/-- **Under a key the value of the last pair is found**, and null if there is none. -/
theorem subscript_putEntries (id : Identity) (ps : List (Value × Value)) (h : k.kind ∈ keyKinds) :
    subscript (.hash id (putEntries [] ps)) k =
      .ok (((lastUnder? ps k.key?).map Prod.snd).getD .null) := by
  obtain ⟨key, hkey⟩ := Option.isSome_iff_exists.mp (isSome_key?_iff.mpr h)
  simp only [subscript, hkey, valueUnder?, find?_putEntries]

theorem subscript_of_unusable (id : Identity) (es : List (Value × Value))
    (h : k.kind ∉ keyKinds) : subscript (.hash id es) k = .error (.unusableKey k.kind) := by
  simp only [subscript, key?_eq_none_iff.mpr h]

end Monkey.Value
