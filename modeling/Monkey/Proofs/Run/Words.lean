import Monkey.Proofs.Evaluation.Closed
import Monkey.Proofs.Value.Integer

/-!
# Integers stay machine words

The parser takes integers from 0 to `2 ^ 63 - 1` only, and arithmetic wraps around at 64 bits.
There is one more source of integers, the builtin `len`: nothing keeps a string from having more
characters than a machine word can count.  Where that name is not used, all integers are machine
words, in every value that a session leads to and in every body of a function.

## Main definitions

* `Vocabulary.words` — machine words, and all names but `len`.
* `Value.HoldsWords` — a value is no other integer, and there is none in its body.

## Main results

* `integers_stay_words` — all integers are machine words.
-/

namespace Monkey

/-- Machine words, and all names but that of the builtin which counts characters. -/
def Vocabulary.words : Vocabulary where
  integer := IsWord
  name x := x ≠ "len"
  builtin b := b ≠ .len
  wrapped := isWord_wrap64
  length h := absurd rfl h
  named := by
    rintro b h rfl
    exact h rfl

theorem Vocabulary.hasLiterals_words : words.HasLiterals := by
  intro n hn
  change IsWord n
  unfold IsWord
  omega

/-- A value is no integer but a machine word, and if it is a function, all integers in its body
are machine words. -/
def Value.HoldsWords (v : Value) : Prop :=
  (∀ k, v = .integer k → IsWord k) ∧
    ∀ id parameters body scope, v = .function id parameters body scope →
      ∀ token k, body.HasPart (.integer token k) → IsWord k

theorem Value.holdsWords_of_closed {s : Store} {v : Value} (h : v.Closed .words s) :
    v.HoldsWords := by
  constructor
  · rintro k rfl
    cases h with
    | integer within => exact within
  · rintro id parameters body scope rfl token k hk
    cases h with
    | function _ _ bodyWithin _ => exact bodyWithin.integer hk

/-- A text in which the name `len` does not stand. -/
def LenFree (text : String) : Prop := ∀ t ∈ tokens text, t.kind = .ident → t.literal ≠ "len"

instance (text : String) : Decidable (LenFree text) :=
  inferInstanceAs (Decidable (∀ t ∈ tokens text, _))

/-- **Integers stay machine words.**  Texts without the name `len` are run one after another in
one scope of a new store.  Afterwards every integer that can be reached from any scope is a
machine word, and so is every integer in the body of a function that can be reached; and the same
holds of all that is inside of the result of one more text. -/
theorem integers_stay_words (depth : Nat) (texts : List String)
    (free : ∀ text ∈ texts, LenFree text) :
    (∀ i v, (runAll depth texts 0 (Store.empty.addScope none)).ReachesValue i v →
      v.HoldsWords) ∧
    ∀ text, LenFree text → ∀ v t,
      run depth text 0 (runAll depth texts 0 (Store.empty.addScope none)) =
        (.finished (some v), t) →
      ∀ w, t.Holds v w → w.HoldsWords := by
  have hempty : (Store.empty.addScope none).Closed .words :=
    Store.closed_empty.addScope nofun
  have hone : 0 < (Store.empty.addScope none).size := Nat.one_pos
  obtain ⟨hs, hsize⟩ := @closed_runAll _ depth 0 _ Vocabulary.hasLiterals_words texts free hone
    hempty
  refine ⟨fun i v h => ?_, fun text hfree v t h w hw => ?_⟩
  · exact Value.holdsWords_of_closed (hs.reaches h)
  · have hscope : 0 < (runAll depth texts 0 (Store.empty.addScope none)).size :=
      Nat.lt_of_lt_of_le Nat.one_pos hsize
    have ht := (@closed_run _ depth _ _ Vocabulary.hasLiterals_words _ hfree hscope hs).1
    rw [h] at ht
    have hv := closed_of_run Vocabulary.hasLiterals_words hfree hscope hs h
    exact Value.holdsWords_of_closed (hw.like ht hv)

/-- The greatest machine word and 1 are added up by a function. -/
theorem integers_stay_words_overflow :
    let texts := ["let f = fn(x) { x + 1 };", "let a = [f(9223372036854775807)];"]
    (∀ text ∈ texts, LenFree text) ∧ LenFree "a[0]" ∧
    (∀ i v, (runAll 20 texts 0 (Store.empty.addScope none)).ReachesValue i v →
      v.HoldsWords) ∧
    ∃ k t, run 20 "a[0]" 0 (runAll 20 texts 0 (Store.empty.addScope none)) =
        (.finished (some (.integer k)), t) ∧
      k = -9223372036854775808 ∧ IsWord k := by
  intro texts
  have hfree : ∀ text ∈ texts, LenFree text := by decide +kernel
  have hlast : LenFree "a[0]" := by decide +kernel
  have hrun : (run 20 "a[0]" 0 (runAll 20 texts 0 (Store.empty.addScope none))).1.value?.bind
      Value.key? = some (.integer (-9223372036854775808)) := by
    decide +kernel
  obtain ⟨hreached, hresult⟩ := integers_stay_words 20 texts hfree
  refine ⟨hfree, hlast, hreached, ?_⟩
  cases hr : run 20 "a[0]" 0 (runAll 20 texts 0 (Store.empty.addScope none)) with
  | mk outcome t =>
    rw [hr] at hrun
    obtain rfl := Outcome.eq_of_key? hrun
    have hword := hresult "a[0]" hlast _ t hr _ .self
    exact ⟨_, t, rfl, rfl, hword.1 _ rfl⟩

end Monkey
