import Monkey.Proofs.Syntax.Complete
import Monkey.Proofs.Syntax.Enough
import Monkey.Proofs.Syntax.Regroup
import Monkey.Proofs.Syntax.Relocate
import Monkey.Proofs.Syntax.Sound

/-!
# The grammar of the parser

The parser has no complaint exactly about the texts whose tokens are a program of the
grammar, and what it reads then is the one tree that the phrases give to the text.

## Main results

* `reads_of_parse` — a text without complaints is a phrase.
* `parse_eq_of_reads`, `mapTokens_parse_of_reads` — a text that is a phrase is read as the
  tree of the phrase, wherever its tokens stand.
* `complaints_eq_nil_iff_derivable` — the grammar is exact.
-/

namespace Monkey

open Phrase

variable {text : String} {depth : Nat} {p : Parsed} {ns : List Node}

/-- A text that is read without complaints is a row of statements. -/
theorem reads_of_parse (h : parse depth text = some p) (hc : p.complaints = []) :
    ∃ ns, p.program = .program ns ∧ Reads (.statements ns) (tokens text) [] := by
  obtain ⟨r, hr, rfl⟩ := Option.map_eq_some_iff.mp h
  obtain ⟨n, count, _⟩ := r
  obtain rfl := hc
  exact Parse.reads_of_yields_program ⟨count, hr, rfl⟩

/-- A text whose tokens are a row of statements when they are moved is read as that, moved, at
every depth at which it is read at all. -/
theorem mapTokens_parse_of_reads {f : Relocation} (h : parse depth text = some p)
    (hns : Reads (.statements ns) ((tokens text).map f.move) []) :
    p.program.mapTokens f.move = .program ns ∧ p.complaints = [] := by
  -- a depth at which the phrase is read, and no smaller than the given one
  have hd : ((tokens text).map f.move).length < depth + (tokens text).length + 1 := by
    rw [List.length_map]
    omega
  obtain ⟨count, hread, -⟩ := Parse.yields_program_of_reads hns hd
  have hle : depth ≤ depth + (tokens text).length + 1 := by omega
  obtain ⟨count', key⟩ := exists_program_of_parse f h hle
  rw [hread, Option.some.injEq, Reading.mk.injEq] at key
  exact ⟨key.1.symm, List.map_eq_nil_iff.mp key.2.2.symm⟩

/-- A text that is a row of statements is read as that, at every depth at which it is read at
all. -/
theorem parse_eq_of_reads (h : parse depth text = some p)
    (hns : Reads (.statements ns) (tokens text) []) : p = ⟨.program ns, []⟩ := by
  have hid : (tokens text).map Relocation.stay.move = tokens text := List.map_id _
  obtain ⟨hp, hc⟩ := mapTokens_parse_of_reads (f := .stay) h (hid.symm ▸ hns)
  rw [Relocation.stay, Node.mapTokens_id] at hp
  rw [← hp, ← hc]

/-- **The grammar is exact.**  A text is read without complaints exactly if its tokens are a
program of the grammar; and it is read at every depth greater than the number of its
tokens. -/
theorem complaints_eq_nil_iff_derivable (text : String) :
    (∀ depth p, parse depth text = some p →
      (p.complaints = [] ↔ Grammar.Derivable (tokens text))) ∧
    ∀ depth, (tokens text).length < depth → (parse depth text).isSome := by
  refine ⟨fun depth p h => ⟨fun hc => ?_, fun hd => ?_⟩, fun depth => isSome_parse⟩
  · obtain ⟨ns, -, hns⟩ := reads_of_parse h hc
    exact derivable_iff.mpr ⟨ns, hns⟩
  · obtain ⟨ns, hns⟩ := derivable_iff.mp hd
    rw [parse_eq_of_reads h hns]

end Monkey
