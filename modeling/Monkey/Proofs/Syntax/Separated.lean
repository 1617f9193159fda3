import Monkey.Proofs.Syntax.Faithful

/-!
# Rows with commas in between

Expressions that are phrases, whatever follows them, are a row of items when they are laid out with
commas in between; and so are pairs.

## Main results

* `reads_items_separated`, `reads_pairs_separated` — the rows of items and of pairs.
-/

namespace Monkey

open Phrase (Reads)
open Piece (row)

theorem row_token (t : Token) (ps : List Piece) :
    row (.lexeme t.lexeme :: ps) = Relocation.forget.move t :: row ps := by
  rw [Piece.row_lexeme, Token.unplaced_lexeme]

/-- The tokens of some pieces and a lexeme behind them, as they stand before other tokens. -/
theorem row_append_lexeme (ps qs : List Piece) (l : Lexeme) (rest : List Token) :
    row (ps ++ .lexeme l :: qs) ++ rest = row ps ++ l.unplaced :: (row qs ++ rest) := by
  rw [Piece.row_append, Piece.row_lexeme, List.append_assoc, List.cons_append]

/-- Some pieces are an expression with a tree, whatever follows them. -/
def IsItem (x : List Piece × Node) : Prop :=
  ∀ rest, Reads (.expression 2 x.2) (row x.1 ++ rest) rest

/-- Some pieces are a pair with two trees, whatever follows them. -/
def IsPair (x : List Piece × (Node × Node)) : Prop :=
  ∀ rest, Reads (.pair x.2.1 x.2.2) (row x.1 ++ rest) rest

/-- Behind the first one of some items the others are read, each with a comma in front. -/
theorem exists_reads_moreItems (x : List Piece × Node) {xs : List (List Piece × Node)}
    (h : ∀ x ∈ xs, IsItem x) (rest : List Token) :
    ∃ mid, row (separated ((x :: xs).map Prod.fst)) ++ rest = row x.1 ++ mid ∧
      Reads (.moreItems (xs.map Prod.snd)) mid rest := by
  induction xs generalizing x with
  | nil => exact ⟨rest, rfl, .lastItem⟩
  | cons y ys ih =>
    obtain ⟨hy, hys⟩ := List.forall_mem_cons.mp h
    obtain ⟨mid, hmid, hreads⟩ := ih y hys
    refine ⟨(Lexeme.plain .comma [',']).unplaced :: (row y.1 ++ mid), ?_, ?_⟩
    · rw [← hmid, List.map_cons, List.map_cons, separated, row_append_lexeme, Piece.row_blank]
    · exact .nextItem rfl (hy mid) hreads

theorem reads_items_separated (xs : List (List Piece × Node)) (h : ∀ x ∈ xs, IsItem x)
    (rest : List Token) :
    Reads (.items (xs.map Prod.snd)) (row (separated (xs.map Prod.fst)) ++ rest) rest := by
  cases xs with
  | nil => exact .noItem
  | cons x xs =>
    obtain ⟨hx, hxs⟩ := List.forall_mem_cons.mp h
    obtain ⟨mid, hmid, hreads⟩ := exists_reads_moreItems x hxs rest
    rw [hmid]
    exact .someItems (hx mid) hreads

theorem reads_pairs_separated (xs : List (List Piece × (Node × Node)))
    (h : ∀ x ∈ xs, IsPair x) (rest : List Token) :
    Reads (.pairs (xs.map Prod.snd)) (row (separated (xs.map Prod.fst)) ++ rest) rest := by
  induction xs with
  | nil => exact .noPair
  | cons x xs ih =>
    obtain ⟨hx, hxs⟩ := List.forall_mem_cons.mp h
    cases xs with
    | nil => exact .lastPair (hx rest)
    | cons y ys =>
      have first := hx ((Lexeme.plain .comma [',']).unplaced ::
        (row (separated ((y :: ys).map Prod.fst)) ++ rest))
      simp only [List.map_cons, separated, row_append_lexeme, Piece.row_blank] at ih ⊢
      exact .nextPair first rfl (ih hxs)

end Monkey
