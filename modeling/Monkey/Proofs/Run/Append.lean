import Monkey.Proofs.Evaluation.Position
import Monkey.Proofs.Evaluation.Relocate
import Monkey.Proofs.Syntax.Sequence
import Monkey.Run

/-!
# One text or two

A program may be run line by line or as a whole.  If the first part ends with a semicolon outside
of all brackets, and none of its statements gives a signal, then running the second part behind it
comes to what running both as one text comes to, functions made in the first part and called in
the second one included.  Only the places of the tokens that functions keep are others.

## Main definitions

* `Outcome.mapTokens` — an outcome with all tokens changed.
* `Evaluation.quiet` — statements that give no signal, one after another.

## Main results

* `run_append` — two texts in a row.
-/

namespace Monkey

/-- An outcome with all its tokens changed. -/
def Outcome.mapTokens (f : Token → Token) : Outcome → Outcome
  | refused complaints => refused (complaints.map (Complaint.mapToken f))
  | stopped why => stopped why
  | finished result => finished (result.map (Value.mapTokens f))

/-- What comes of a text and the store behind it, with the places of all tokens forgotten. -/
def Outcome.unplaced : Outcome × Store → Outcome × Store :=
  Prod.map (mapTokens Relocation.forget.move) (Store.mapTokens Relocation.forget.move)

namespace Evaluation

variable {scope : ScopeId} {ns ms : List Node} {s t : Store} {o o' : Option Value}

/-- Whether some statements give results without a signal, one after another. -/
def quiet (eval : Evaluator) (scope : ScopeId) : List Node → Store → Bool
  | [], _ => true
  | n :: ns, s =>
    match eval n scope s with
    | .ok o t => !o.any Value.isSignal && quiet eval scope ns t
    | .error _ _ => false

/-- Such statements give what a block of them gives. -/
theorem exists_of_quiet {eval : Evaluator} {last : Option Value} (h : quiet eval scope ns s)
    (hlast : last.any Value.isSignal = false) :
    ∃ o t, runBlock eval scope ns last s = .ok o t ∧ o.any Value.isSignal = false := by
  induction ns generalizing s last with
  | nil => exact ⟨last, s, rfl, hlast⟩
  | cons n ns ih =>
    rw [quiet] at h
    split at h
    · next o t hn =>
      rw [Bool.and_eq_true, Bool.not_eq_true'] at h
      obtain ⟨o', t', h', ho'⟩ := ih h.2 h.1
      refine ⟨o', t', ?_, ho'⟩
      rw [runBlock, bind_of_ok hn, if_neg (Bool.eq_false_iff.mp h.1)]
      exact h'
    · contradiction

/-- A program with a statement does not depend on what came before it. -/
theorem runProgram_of_ne_nil (eval : Evaluator) (h : ns ≠ []) (o o' : Option Value) :
    runProgram eval scope ns o = runProgram eval scope ns o' := by
  cases ns with
  | nil => contradiction
  | cons n ns => rfl

theorem unplaced_outcome {e e' : Evaluation (Option Value)}
    (h : Moves .forget (moveResult .forget) e e') (s : Store) :
    Outcome.unplaced (e.outcome s) = e'.outcome (s.mapTokens Relocation.forget.move) := by
  unfold outcome
  rw [h s]
  cases e s <;> rfl

/-- Programs that differ in places only come to the same, apart from places. -/
theorem unplaced_runProgram (depth : Nat)
    (h : Node.mapTokensAll Relocation.forget.move ns = Node.mapTokensAll Relocation.forget.move ms)
    (hne : ms ≠ []) (s : Store) :
    Outcome.unplaced ((runProgram (eval depth) scope ns o).outcome s) =
      Outcome.unplaced ((runProgram (eval depth) scope ms o').outcome s) := by
  have hmoves := moves_eval .forget depth
  rw [Node.mapTokensAll_eq_map, Node.mapTokensAll_eq_map] at h
  have hne' : ms.map (Node.mapTokens Relocation.forget.move) ≠ [] := by
    rw [ne_eq, List.map_eq_nil_iff]
    exact hne
  rw [unplaced_outcome (moves_runProgram hmoves scope ns o),
    unplaced_outcome (moves_runProgram hmoves scope ms o'), h]
  rw [runProgram_of_ne_nil (eval depth) hne' (moveResult .forget o)]

end Evaluation

/-- A text without complaints is run as its statements. -/
theorem run_of_parse {depth : Nat} {text : String} {ns : List Node}
    (h : parse (depth + 1) text = some ⟨.program ns, []⟩) (scope : ScopeId) (s : Store) :
    run (depth + 1) text scope s =
      (Evaluation.runProgram (Evaluation.eval depth) scope ns none).outcome s :=
  run_of_clean h rfl scope s

open Evaluation in
/-- **One text or two.**  Let a text without complaints end with a semicolon outside of all
brackets, and let none of its statements give a signal.  Then running it and a second text behind
it comes to what running both as one text comes to, printed lines, bindings and result alike,
apart from the places of tokens. -/
theorem run_append {depth : Nat} {text text' : String} {scope : ScopeId} {s : Store}
    {ns ms : List Node} (first : parse (depth + 1) text = some ⟨.program ns, []⟩)
    (second : parse (depth + 1) text' = some ⟨.program ms, []⟩) (some_left : ms ≠ [])
    (both : (parse (depth + 1) (text ++ text')).isSome)
    (hlast : EndsWithSemicolon (tokens text)) (hdepth : bracketDepth text = 0)
    (hquiet : quiet (eval depth) scope ns s) :
    ∃ o t, run (depth + 1) text scope s = (.finished o, t) ∧
      Outcome.unplaced (run (depth + 1) (text ++ text') scope s) =
        Outcome.unplaced (run (depth + 1) text' scope t) := by
  obtain ⟨⟨program, complaints⟩, hp⟩ := Option.isSome_iff_exists.mp both
  obtain ⟨_, ms', _, ⟨⟩, ⟨⟩, hprogram, hsame, hclean⟩ :=
    parse_append hp first second rfl hlast hdepth
  obtain rfl : program = .program (ns ++ ms') := hprogram
  obtain rfl : complaints = [] := List.map_eq_nil_iff.mp hclean
  -- the statements of the first text are the same ones in both runs, tokens included
  have hnone : none.any Value.isSignal = false := rfl
  obtain ⟨o, t, hblock, ho⟩ := exists_of_quiet hquiet hnone
  have hafter : ∀ after, runProgram (eval depth) scope (ns ++ after) none s =
      runProgram (eval depth) scope after o t := fun _ => runProgram_append hblock ho
  have hfirst := hafter []
  rw [List.append_nil] at hfirst
  refine ⟨o, t, ?_, ?_⟩
  · rw [run_of_parse first, outcome, hfirst]
    rfl
  · rw [run_of_parse hp, run_of_parse second, outcome, hafter]
    exact unplaced_runProgram depth hsame some_left t

/-- A function that is made in one text and called in the next one. -/
theorem run_append_closure :
    ∃ ns ms o t,
      parse 20 "let f = fn(x) \x7b puts(x); x + 1 \x7d; puts(0);" = some ⟨.program ns, []⟩ ∧
      parse 20 "f(2)" = some ⟨.program ms, []⟩ ∧ ms ≠ [] ∧
      Evaluation.quiet (Evaluation.eval 19) 0 ns (Store.empty.addScope none) = true ∧
      run 20 "let f = fn(x) \x7b puts(x); x + 1 \x7d; puts(0);" 0 (Store.empty.addScope none) =
        (.finished o, t) ∧
      Outcome.unplaced (run 20 ("let f = fn(x) \x7b puts(x); x + 1 \x7d; puts(0);" ++ "f(2)") 0
        (Store.empty.addScope none)) = Outcome.unplaced (run 20 "f(2)" 0 t) := by
  have hfirst : (parse 20 "let f = fn(x) \x7b puts(x); x + 1 \x7d; puts(0);").map (fun p =>
      (p.complaints, Evaluation.quiet (Evaluation.eval 19) 0 p.program.children
        (Store.empty.addScope none))) = some ([], true) := by
    decide +kernel
  have hsecond : (parse 20 "f(2)").map (fun p => (p.complaints, p.program.children.isEmpty)) =
      some ([], false) := by
    decide +kernel
  obtain ⟨⟨_, _⟩, hp, hfirst⟩ := Option.map_eq_some_iff.mp hfirst
  obtain ⟨⟨_, _⟩, hq, hsecond⟩ := Option.map_eq_some_iff.mp hsecond
  obtain ⟨rfl, hquiet⟩ := Prod.mk.inj hfirst
  obtain ⟨rfl, hempty⟩ := Prod.mk.inj hsecond
  obtain ⟨ns, rfl, -⟩ := reads_of_parse hp rfl
  obtain ⟨ms, rfl, -⟩ := reads_of_parse hq rfl
  have hne : ms ≠ [] := List.isEmpty_eq_false_iff.mp hempty
  obtain ⟨o, t, hrun, hsame⟩ := run_append hp hq hne (by decide +kernel) (by decide +kernel)
    (by decide +kernel) hquiet
  exact ⟨ns, ms, o, t, hp, hq, hne, hquiet, hrun, hsame⟩

end Monkey
