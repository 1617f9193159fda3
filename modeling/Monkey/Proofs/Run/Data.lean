import Monkey.Proofs.Run.Expression
import Monkey.Proofs.Value.Data
import Monkey.Proofs.Value.Entries
import Monkey.Proofs.Value.Integer

/-!
# Data is read back

The text of data is an expression, and running it gives the data again: the same integers and
truth values in the same order, and hashes with the same keys, in the order in which they were put
in.  Only identities are new.

## Main definitions

* `Value.height` — how deeply a value nests.

## Main results

* `Value.IsData.evaluates_tree` — the tree of data evaluates to the data.
* `run_inspect` — the text of data is run to the data.
-/

namespace Monkey

namespace Value

open Evaluation

mutual

/-- How deeply the expression for a value nests. -/
def height : Value → Nat
  | integer _ => 1
  | array _ elements => heightAll elements + 1
  | hash _ entries => heightEntries entries + 1
  | _ => 0

/-- How deeply some values nest. -/
def heightAll : List Value → Nat
  | [] => 0
  | v :: vs => max (height v) (heightAll vs)

/-- How deeply the entries of a hash nest. -/
def heightEntries : List (Value × Value) → Nat
  | [] => 0
  | (k, v) :: es => max (max (height k) (height v)) (heightEntries es)

end

variable {v w : Value} {scope : ScopeId} {depth bound : Nat}

/-! ### What the content shows -/

theorem isSignal_content (v : Value) : v.content.isSignal = v.isSignal := by
  cases v <;> rfl

theorem key?_content (v : Value) : v.content.key? = v.key? := by
  cases v <;> rfl

theorem IsData.isSignal (h : v.IsData) : v.isSignal = false := by
  cases h <;> rfl

/-- What has the content of data is no signal. -/
theorem IsData.isSignal_of_content (h : v.IsData) (hw : w.content = v.content) :
    w.isSignal = false := by
  rw [← isSignal_content, hw, isSignal_content, h.isSignal]

/-! ### Evaluation -/

/-- A value of the content of `v` has come about. -/
abbrev Comes (v w : Value) : Prop := w.content = v.content

/-- The trees of some data give the data. -/
theorem ensures_values_trees {vs : List Value} (hdata : ∀ v ∈ vs, v.IsData)
    (h : ∀ v ∈ vs, v.tree.Evaluates v.height (Comes v)) (hb : heightAll vs < bound) :
    Ensures (fun _ => True) (fun why => why = .tooDeep ∧ depth + 1 ≤ bound)
      (fun r => ∃ ws, r = .ok ws ∧ contents ws = contents vs)
      (values (eval depth) scope (trees vs)) := by
  induction vs with
  | nil => exact .pure ⟨[], rfl, rfl⟩
  | cons v vs ih =>
    obtain ⟨hd, hds⟩ := List.forall_mem_cons.mp hdata
    obtain ⟨hv, hvs⟩ := List.forall_mem_cons.mp h
    rw [heightAll] at hb
    refine (hv.value (by omega) scope).bind fun w hw => ?_
    refine .ite (fun hs => ?_) fun _ => ?_
    · rw [hd.isSignal_of_content hw] at hs
      cases hs
    · refine (ih hds hvs (by omega)).bind ?_
      rintro _ ⟨ws, rfl, hws⟩
      exact .pure ⟨w :: ws, rfl, by rw [contents, contents, hw, hws]⟩

/-- The trees of entries with new keys give the entries behind those that are there. -/
theorem ensures_entries_trees {es done : List (Value × Value)} (before : List (Value × Value))
    (hkeys : ∀ e ∈ es, e.1.IsData) (hvalues : ∀ e ∈ es, e.2.IsData)
    (hk : ∀ e ∈ es, e.1.tree.Evaluates e.1.height (Comes e.1))
    (hv : ∀ e ∈ es, e.2.tree.Evaluates e.2.height (Comes e.2))
    (usable : ∀ e ∈ es, e.1.key?.isSome)
    (distinct : ((before ++ es).map fun e => e.1.key?).Nodup)
    (hdone : entryContents done = entryContents before) (hb : heightEntries es < bound) :
    Ensures (fun _ => True) (fun why => why = .tooDeep ∧ depth + 1 ≤ bound)
      (fun r => ∃ ws, r = .ok ws ∧ entryContents ws = entryContents (before ++ es))
      (entries (eval depth) scope (entryTrees es) done) := by
  induction es generalizing before done with
  | nil => exact .pure ⟨done, rfl, by rw [List.append_nil, hdone]⟩
  | cons e es ih =>
    obtain ⟨k, v⟩ := e
    obtain ⟨hdk, hkeys⟩ := List.forall_mem_cons.mp hkeys
    obtain ⟨hdv, hvalues⟩ := List.forall_mem_cons.mp hvalues
    obtain ⟨hek, hk⟩ := List.forall_mem_cons.mp hk
    obtain ⟨hev, hv⟩ := List.forall_mem_cons.mp hv
    obtain ⟨huk, usable⟩ := List.forall_mem_cons.mp usable
    rw [heightEntries] at hb
    rw [List.append_cons] at distinct
    have hbk : k.height < bound := by omega
    have hbv : v.height < bound := by omega
    refine (hek.value hbk scope).bind fun k' hk' => ?_
    have hkey : k'.key? = k.key? := by rw [← key?_content, hk', key?_content]
    refine .ite (fun hs => ?_) fun _ => .ite (fun hn => ?_) fun _ => ?_
    · rw [hdk.isSignal_of_content hk'] at hs
      cases hs
    · rw [hkey, Option.isNone_iff_eq_none] at hn
      rw [hn] at huk
      cases huk
    refine (hev.value hbv scope).bind fun v' hv' => .ite (fun hs => ?_) fun _ => ?_
    · rw [hdv.isSignal_of_content hv'] at hs
      cases hs
    -- the key is new: what is done has the keys of what comes before
    have hnew : k'.key? ∉ keys done := by
      intro hmem
      obtain ⟨e, he, heq⟩ := List.mem_map.mp hmem
      have hmem : Prod.map content content e ∈ entryContents before := by
        rw [← hdone, entryContents_eq_map]
        exact List.mem_map_of_mem he
      rw [entryContents_eq_map] at hmem
      obtain ⟨b, hb, hbe⟩ := List.mem_map.mp hmem
      have hbk : b.1.key? = k.key? := by
        rw [← hkey, ← heq, ← key?_content, ← key?_content e.1]
        exact congrArg (fun e => e.1.key?) hbe
      rw [List.map_append, List.map_append] at distinct
      exact (List.nodup_append.mp (List.nodup_append.mp distinct).1).2.2 _ (List.mem_map_of_mem hb)
        _ (List.mem_singleton_self _) hbk
    rw [putEntry_of_new hnew]
    refine (ih _ hkeys hvalues hk hv usable distinct ?_ (by omega)).mono (fun _ => id) ?_
    · rw [entryContents_eq_map, entryContents_eq_map] at hdone ⊢
      have hlast : Prod.map content content (k', v') = Prod.map content content (k, v) :=
        Prod.ext hk' hv'
      rw [List.map_append, List.map_append, hdone, List.map_singleton, hlast, List.map_singleton]
    · rintro r ⟨ws, hr, hws⟩
      exact ⟨ws, hr, by rw [hws, ← List.append_cons]⟩

/-- The tree of data evaluates to the data. -/
theorem IsData.evaluates_tree (h : v.IsData) : v.tree.Evaluates v.height (Comes v) := by
  induction h with
  | @integer n low high =>
    have number : (Node.integer (digits n.natAbs).unplaced n.natAbs).Evaluates 0
        (Comes (.integer n.natAbs)) :=
      Node.evaluates_of_succ fun depth scope => .pure ⟨_, rfl, rfl⟩
    rw [tree, height]
    split
    · refine Node.evaluates_of_succ fun depth scope => ?_
      have hneg : -(n.natAbs : Int) = n := by omega
      refine ensures_operand (number.value Nat.one_pos scope) ?_ fun w hw _ => ?_
      · intro w hw hs
        rw [← isSignal_content, hw] at hs
        cases hs
      · cases w <;> cases hw
        refine .map _ (.pure ⟨_, rfl, ?_⟩)
        rw [hneg, wrap64_eq_self ⟨Int.le_trans (by decide) low, high⟩]
    · have hpos : (n.natAbs : Int) = n := by omega
      refine fun depth scope => (number depth scope).mono ?_ ?_
      · rintro why ⟨hwhy, hd⟩
        exact ⟨hwhy, Nat.le_trans hd (Nat.zero_le 1)⟩
      · rintro o ⟨w, ho, hw⟩
        exact ⟨w, ho, by rw [Comes, hw, hpos]⟩
  | boolean b => exact Node.evaluates_of_succ fun depth scope => .pure ⟨_, rfl, rfl⟩
  | @array id elements data ih =>
    refine Node.evaluates_of_succ fun depth scope => ?_
    refine (ensures_values_trees data ih (Nat.lt_succ_self _)).bind ?_
    rintro _ ⟨ws, rfl, hws⟩
    refine (ensures_issue fun _ _ => trivial).bind fun id' _ => .pure ⟨_, rfl, ?_⟩
    rw [Comes, content, content, hws]
  | @hash id entries keys usable values distinct ihk ihv =>
    refine Node.evaluates_of_succ fun depth scope => ?_
    refine (ensures_entries_trees [] keys values ihk ihv usable distinct rfl
      (Nat.lt_succ_self _)).bind ?_
    rintro _ ⟨ws, rfl, hws⟩
    refine (ensures_issue fun _ _ => trivial).bind fun id' _ => .pure ⟨_, rfl, ?_⟩
    rw [Comes, content, content, hws, List.nil_append]

/-- What has the content of data is no wrapper. -/
theorem IsData.unwrapped_of_content (h : v.IsData) (hw : w.content = v.content) :
    w.unwrapped = w := by
  have hsignal := h.isSignal_of_content hw
  cases w with
  | returned => cases hsignal
  | _ => rfl

end Value

/-- **Data is read back.**  The text of data is run, in any scope, to a value of the same content.
It goes too deep at no depth greater than the number of its tokens and its height. -/
theorem run_inspect {v : Value} (h : v.IsData) (scope : ScopeId) (s : Store) :
    (∀ depth, (tokens v.inspect).length < depth → v.height + 2 < depth →
      (run depth v.inspect scope s).1 ≠ .stopped .tooDeep) ∧
    ∀ depth, (run depth v.inspect scope s).1 = .stopped .tooDeep ∨
      ∃ w, (run depth v.inspect scope s).1 = .finished (some w) ∧ w.content = v.content := by
  obtain ⟨hdeep, hrun⟩ := run_of_readsAs h.readsAs_inspect h.evaluates_tree
    (fun _ => h.unwrapped_of_content) scope s
  refine ⟨hdeep, fun depth => (hrun depth).imp_right ?_⟩
  rintro ⟨w, hw, hcontent⟩
  exact ⟨w, hw, (Value.content_mapTokens _ w).symm.trans hcontent⟩

/-- A hash with a negative key, an array and an empty hash. -/
theorem run_inspect_hash :
    ∃ v w : Value, v.IsData ∧ v.inspect = "{-5: [true, 7], false: {}}" ∧
      (run 40 "{-5: [true, 7], false: {}}" 0 (Store.empty.addScope none)).1 =
        .finished (some w) ∧ w.content = v.content := by
  have harray : (Value.array 1 [.boolean true, .integer 7]).IsData :=
    .array 1 (List.forall_mem_cons.mpr ⟨.boolean true, List.forall_mem_cons.mpr
      ⟨.integer (by decide) (by decide), List.forall_mem_nil _⟩⟩)
  have hempty : (Value.hash 2 []).IsData :=
    .hash 2 (List.forall_mem_nil _) (List.forall_mem_nil _) (List.forall_mem_nil _) List.nodup_nil
  have hdata : (Value.hash 3 [(.integer (-5), .array 1 [.boolean true, .integer 7]),
      (.boolean false, .hash 2 [])]).IsData :=
    .hash 3
      (List.forall_mem_cons.mpr ⟨.integer (by decide) (by decide), List.forall_mem_cons.mpr
        ⟨.boolean false, List.forall_mem_nil _⟩⟩)
      (by decide)
      (List.forall_mem_cons.mpr ⟨harray, List.forall_mem_cons.mpr
        ⟨hempty, List.forall_mem_nil _⟩⟩)
      (by decide)
  obtain ⟨hdeep, hrun⟩ := run_inspect hdata 0 (Store.empty.addScope none)
  have hlength : (tokens "{-5: [true, 7], false: {}}").length < 40 := by decide +kernel
  rcases hrun 40 with hstop | ⟨w, hw, hcontent⟩
  · exact absurd hstop (hdeep 40 hlength (by decide))
  · exact ⟨_, w, hdata, rfl, hw, hcontent⟩

end Monkey
