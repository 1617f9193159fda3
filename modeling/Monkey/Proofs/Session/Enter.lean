import Monkey.Proofs.Syntax.OpenBlocks
import Monkey.Proofs.Token.Rendering
import Monkey.Session.Buffer

/-!
# Enter

What Enter does in a text that is read without complaints: it submits the text if all its blocks
are closed, and begins a new line otherwise, which is indented once for each block that is open.

Enter leaves commands alone, but no error-free text is one.  A command begins with a slash, with
blanks in front that may be more than the reader skips, and neither a slash nor such a blank begins
a statement.

## Main results

* `isCommand_of_parse` — a text without complaints is no command.
* `bracketDepth_counts_open_blocks` — the brackets that are open are those of the open blocks, and
  Enter submits a text if there are none.
-/

namespace Monkey

/-! ### Commands are no programs -/

namespace Lexeme

open Token

variable {c : Char}

/-- The visible ASCII characters are no blanks around a command. -/
theorem not_isBlank_of_visible (h : 0x21 ≤ c.toNat) (h' : c.toNat ≤ 0x7e) :
    Text.isBlank c = false := by
  simp only [Text.isBlank, Bool.or_eq_false_iff, Bool.and_eq_false_iff, decide_eq_false_iff_not]
  omega

theorem not_isWordPart_of_textBlank (h : Text.isBlank c) : isWordPart c = false := by
  rw [Bool.eq_false_iff]
  intro hpart
  have hvisible : 0x21 ≤ c.toNat ∧ c.toNat ≤ 0x7e := by
    simp only [isWordPart, isLetter, isDigit, Bool.or_eq_true, Bool.and_eq_true, decide_eq_true_eq,
      Char.le_def, UInt32.le_iff_toNat_le] at hpart
    rcases hpart with ((hpart | hpart) | rfl) | hpart
    · change 97 ≤ c.toNat ∧ c.toNat ≤ 122 at hpart
      omega
    · change 65 ≤ c.toNat ∧ c.toNat ≤ 90 at hpart
      omega
    · decide
    · change 48 ≤ c.toNat ∧ c.toNat ≤ 57 at hpart
      omega
  rw [not_isBlank_of_visible hvisible.1 hvisible.2] at h
  contradiction

/-- A blank around a command that is none for the reader begins nothing. -/
theorem first_of_textBlank (h : Text.isBlank c) (cs : List Char) :
    first c cs = plain .illegal [c] := by
  have ne_of_visible : ∀ d, Text.isBlank d = false → c ≠ d := by
    rintro d hd rfl
    rw [hd] at h
    contradiction
  obtain ⟨not_letter, not_digit⟩ := Bool.or_eq_false_iff.mp (not_isWordPart_of_textBlank h)
  have not_symbol : Kind.ofChar? c = none := by
    refine ofChar?_eq_none_iff.mpr ?_
    rintro ⟨s, hs, hc⟩
    have all : ∀ s ∈ symbols, s.1.all (fun d => !Text.isBlank d) = true := by decide
    have hvisible := List.all_eq_true.mp (all s hs) c hc
    rw [h] at hvisible
    contradiction
  rw [first, if_neg (ne_of_visible '"' (by decide)), if_neg (Bool.eq_false_iff.mp not_letter),
    if_neg (Bool.eq_false_iff.mp not_digit)]
  unfold symbol
  split
  · exact absurd rfl (ne_of_visible '=' (by decide))
  · exact absurd rfl (ne_of_visible '!' (by decide))
  · rw [not_symbol]
    rfl

/-- What a command begins with begins no statement. -/
theorem not_starts_first (h : Text.isBlank c ∨ c = '/') (cs : List Char) :
    ¬ Phrase.Starts (first c cs).kind := by
  rcases h with h | rfl
  · have hillegal : ¬ Phrase.Starts .illegal := by decide
    rwa [first_of_textBlank h]
  · have hslash : ¬ Phrase.Starts .slash := by decide
    exact hslash

end Lexeme

namespace Buffer

theorem isCommand_cons_of_textBlank {c : Char} (h : Text.isBlank c) (cs : List Char) :
    isCommand (c :: cs) = isCommand cs := by
  rw [isCommand, Text.stripLeft, List.dropWhile_cons_of_pos h]
  rfl

/-- The first character of a command is a blank or the slash. -/
theorem blank_or_slash_of_isCommand {c : Char} {cs : List Char} (h : isCommand (c :: cs)) :
    Text.isBlank c ∨ c = '/' := by
  by_cases hc : Text.isBlank c
  · exact .inl hc
  · rw [isCommand, Text.stripLeft, List.dropWhile_cons_of_neg hc] at h
    exact .inr (Option.some.inj (of_decide_eq_true h))

/-- The tokens of a command do not begin with a statement. -/
theorem exists_cons_of_isCommand {cs : List Char} (h : isCommand cs) (p : Place) :
    ∃ t ts, (⟨p, cs⟩ : Scanner).tokens = t :: ts ∧ ¬ Phrase.Starts t.kind := by
  induction cs using Lexeme.text_induction generalizing p with
  | nil => contradiction
  | blank c cs hc ih =>
    have hblank : Text.isBlank c := by
      simp only [Token.isBlank, Bool.or_eq_true, decide_eq_true_eq] at hc
      rcases hc with ((rfl | rfl) | rfl) | rfl <;> decide
    rw [isCommand_cons_of_textBlank hblank] at h
    rw [Scanner.tokens_blank hc]
    exact ih h _
  | lexeme l rest hl _ =>
    refine ⟨_, _, Scanner.tokens_lexeme hl p, ?_⟩
    obtain ⟨c, cs, hs, -, hfirst⟩ := hl
    rw [hs, List.cons_append] at h
    rw [Lexeme.token, ← hfirst]
    exact Lexeme.not_starts_first (blank_or_slash_of_isCommand h) _

end Buffer

/-! ### Enter in a text without complaints -/

section Enter

variable {depth : Nat} {text : String} {p : Parsed}

/-- A text without complaints is no command. -/
theorem isCommand_of_parse (h : parse depth text = some p) (clean : p.complaints = []) :
    Buffer.isCommand text.toList = false := by
  rw [Bool.eq_false_iff]
  intro hcommand
  obtain ⟨t, ts, htokens, ht⟩ := Buffer.exists_cons_of_isCommand hcommand .start
  have hrow : tokens text = t :: ts := htokens
  obtain ⟨ns, -, hreads⟩ := reads_of_parse h clean
  rw [hrow] at hreads
  rcases Phrase.started_of_reads hreads with hnil | ⟨u, us, hcons, hu⟩
  · cases hnil
  · cases hcons
    exact ht hu

/-- Enter finds as many brackets open as there are open blocks. -/
theorem openBrackets_of_parse {b : Buffer} (h : parse depth text = some p)
    (clean : p.complaints = []) (hb : b.text = text.toList) :
    b.openBrackets = p.program.openBlocks text := by
  rw [Buffer.openBrackets, hb, isCommand_of_parse h clean, String.ofList_toList,
    bracketDepth_of_parse h clean]
  rfl

/-- **The bracket counter agrees with the parser.**  In a text without complaints the brackets
that are open are those of the blocks that the end of the text closes.  The blocks of the tree are
what the parser reads at their braces, up to a closing brace or to the end.  So Enter submits the
text exactly if every block has its closing brace, and begins a new line otherwise, which is
indented once for each block that has none. -/
theorem bracketDepth_counts_open_blocks (h : parse depth text = some p)
    (clean : p.complaints = []) :
    bracketDepth text = p.program.openBlocks text ∧
    (∀ brace ns, p.program.HasPart (.block brace ns) →
      (∃ count, readBlock text brace = some ⟨.block brace ns, count, []⟩) ∧
      (blockEnd? text brace = some .rbrace ∨ blockEnd? text brace = some .eof)) ∧
    ∀ b : Buffer, b.text = text.toList →
      ((b.press .enter).2 = [.submit] ↔
        ∀ brace ns, p.program.HasPart (.block brace ns) → blockEnd? text brace = some .rbrace) ∧
      b.press .enter = if p.program.openBlocks text = 0 then (b, [.submit])
        else (b.insert (Buffer.newLine (p.program.openBlocks text)), []) := by
  refine ⟨bracketDepth_of_parse h clean, fun brace ns => reread_of_parse h clean,
    fun b hb => ?_⟩
  have hopen := openBrackets_of_parse h clean hb
  have hpress : b.press .enter = if p.program.openBlocks text = 0 then (b, [.submit])
      else (b.insert (Buffer.newLine (p.program.openBlocks text)), []) := by
    rw [Buffer.press, hopen]
    split
    · next hpos => rw [if_neg (Nat.pos_iff_ne_zero.mp hpos)]
    · next hzero => rw [if_pos (Nat.eq_zero_of_not_pos hzero)]
  refine ⟨?_, hpress⟩
  rw [← openBlocks_eq_zero_iff_of_parse h clean, hpress]
  split
  · next hzero => exact ⟨fun _ => hzero, fun _ => rfl⟩
  · next hne => exact ⟨nofun, fun hzero => absurd hzero hne⟩

/-- Two blocks are open and one is closed; the brackets of the array and the parenthesis are
closed, too, and those in the string do not count. -/
theorem bracketDepth_counts_open_blocks_two :
    let text := "let f = fn(x) \x7b if (x) \x7b [1](0) \x7d else \x7b \"((\""
    let b := Buffer.ofText text.toList 3
    ∃ p, parse 30 text = some p ∧ p.complaints = [] ∧ p.program.openBlocks text = 2 ∧
      (∃ brace ns, p.program.HasPart (.block brace ns) ∧ blockEnd? text brace ≠ some .rbrace) ∧
      b.press .enter = (b.insert (Buffer.newLine 2), []) := by
  intro text b
  have hread : (parse 30 text).map Parsed.complaints = some [] := by decide +kernel
  obtain ⟨p, hp, hc⟩ := Option.map_eq_some_iff.mp hread
  have hdepth : bracketDepth text = 2 := by decide +kernel
  obtain ⟨hcount, -, henter⟩ := bracketDepth_counts_open_blocks hp hc
  obtain ⟨hsubmit, hpress⟩ := henter b (Buffer.text_ofText _ _)
  have htwo : p.program.openBlocks text = 2 := hcount.symm.trans hdepth
  rw [htwo, if_neg (by decide)] at hpress
  refine ⟨p, hp, hc, htwo, ?_, hpress⟩
  by_contra hnone
  push Not at hnone
  have hsubmitted := hsubmit.mpr hnone
  rw [hpress] at hsubmitted
  cases hsubmitted

end Enter

end Monkey
