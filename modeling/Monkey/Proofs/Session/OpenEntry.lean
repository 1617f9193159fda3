import Mathlib.Data.List.TakeWhile
import Monkey.Proofs.Token.Brackets
import Monkey.Session.Buffer

/-!
# Open entries

An entry is open while a bracket in it is.  Enter begins a new line in an open entry, and the entry
stays open as it was, wherever the cursor stands: what Enter inserts is blank, so it opens and
closes no bracket, and it does not make a command of the entry.

## Main definitions

* `Buffer.IsOpen` — an entry that is no command and has brackets open.
* `Buffer.pressAll` — the effect of some keys.

## Main results

* `Buffer.IsOpen.enter` — Enter begins a new line, and the entry is open as before.
* `Buffer.enter_keeps_entries_open` — so does every further Enter.
-/

namespace Monkey.Buffer

/-- An entry that is no command and has some brackets open. -/
structure IsOpen (b : Buffer) (depth : Nat) : Prop where
  not_command : (Text.stripLeft b.text).head? ≠ some '/'
  depth_eq : bracketDepth (String.ofList b.text) = depth
  pos : 0 < depth

/-- The effect of some keys, one after another. -/
def pressAll (b : Buffer) : List Key → Buffer × List Event
  | [] => (b, [])
  | key :: keys =>
    let pressed := b.press key
    let others := pressed.1.pressAll keys
    (others.1, pressed.2 ++ others.2)

variable {b : Buffer} {depth : Nat}

@[simp] theorem insert_nil (b : Buffer) : b.insert [] = b := by
  simp [insert]

@[simp] theorem insert_insert (b : Buffer) (cs ds : List Char) :
    (b.insert cs).insert ds = b.insert (cs ++ ds) := by
  simp [insert]

/-! ### Blanks in an entry -/

/-- Blanks that are inserted leave the first character that is no blank. -/
theorem head?_stripLeft_insert {blanks : List Char} (h : ∀ c ∈ blanks, Text.isBlank c)
    (cs ds : List Char) :
    (Text.stripLeft (cs ++ blanks ++ ds)).head? = (Text.stripLeft (cs ++ ds)).head? := by
  have hnone : blanks.find? (fun c => !Text.isBlank c) = none := by
    simpa [List.find?_eq_none] using h
  unfold Text.stripLeft
  rw [← List.find?_not_eq_head?_dropWhile, ← List.find?_not_eq_head?_dropWhile, List.append_assoc,
    List.find?_append, List.find?_append, hnone, Option.none_or, ← List.find?_append]

/-- Blanks that are inserted leave the brackets that are open, whatever they part. -/
theorem bracketDepth_insert {blanks : List Char} (h : ∀ c ∈ blanks, Token.isBlank c)
    (cs ds : List Char) :
    bracketDepth (String.ofList (cs ++ blanks ++ ds)) = bracketDepth (String.ofList (cs ++ ds)) := by
  have hnil : blanks.filter (fun c => !Token.isBlank c) = [] := by
    simpa [List.filter_eq_nil_iff] using h
  rw [← bracketDepth_filter, ← bracketDepth_filter (cs ++ ds), List.filter_append,
    List.filter_append, hnil, List.append_nil, ← List.filter_append]

/-- A new line is made of blanks, and they are blanks around a command, too. -/
theorem isBlank_of_mem_newLine {c : Char} (h : c ∈ newLine depth) :
    Token.isBlank c ∧ Text.isBlank c := by
  rcases List.mem_cons.mp h with rfl | h
  · decide
  · rw [List.eq_of_mem_replicate h]
    decide

/-! ### Enter -/

theorem openBrackets_of_isOpen (h : b.IsOpen depth) : b.openBrackets = depth := by
  have hcommand : isCommand b.text = false := decide_eq_false h.not_command
  rw [openBrackets, hcommand, h.depth_eq]
  rfl

/-- A new line leaves an entry open. -/
theorem IsOpen.insert_newLine (h : b.IsOpen depth) : (b.insert (newLine depth)).IsOpen depth where
  not_command := by
    rw [text_insert, head?_stripLeft_insert fun c hc => (isBlank_of_mem_newLine hc).2]
    exact h.not_command
  depth_eq := by
    rw [text_insert, bracketDepth_insert fun c hc => (isBlank_of_mem_newLine hc).1]
    exact h.depth_eq
  pos := h.pos

/-- Enter begins a new line in an open entry. -/
theorem IsOpen.enter (h : b.IsOpen depth) :
    b.press .enter = (b.insert (newLine depth), []) := by
  rw [press, openBrackets_of_isOpen h, if_pos h.pos]

/-- Enter keeps an entry open, however often it is pressed. -/
theorem IsOpen.enterAll (h : b.IsOpen depth) (n : Nat) :
    b.pressAll (List.replicate n .enter) =
        (b.insert (List.replicate n (newLine depth)).flatten, []) ∧
      (b.insert (List.replicate n (newLine depth)).flatten).IsOpen depth := by
  induction n generalizing b with
  | zero => simpa [pressAll] using h
  | succ n ih =>
    -- the other presses find the entry as open as it was
    obtain ⟨hpress, hopen⟩ := ih h.insert_newLine
    rw [insert_insert] at hpress hopen
    simp only [List.replicate_succ, List.flatten_cons, pressAll, h.enter, hpress]
    exact ⟨rfl, hopen⟩

/-- **Enter keeps open entries open.**  In an entry that is no command and has brackets open,
pressing Enter `n` times submits nothing.  It inserts `n` new lines at the cursor, each of them
indented by four blanks for every open bracket, and as many brackets are open as before.  And
blanks that are inserted anywhere in any text leave the brackets that are open. -/
theorem enter_keeps_entries_open :
    (∀ b : Buffer, (Text.stripLeft b.text).head? ≠ some '/' →
      0 < bracketDepth (String.ofList b.text) → ∀ n : Nat,
      let depth := bracketDepth (String.ofList b.text)
      let line := '\n' :: List.replicate (4 * depth) ' '
      let b' : Buffer := ⟨b.before ++ (List.replicate n line).flatten, b.behind⟩
      b.pressAll (List.replicate n .enter) = (b', []) ∧
        bracketDepth (String.ofList b'.text) = depth) ∧
    ∀ cs blanks ds : List Char, (∀ c ∈ blanks, c = ' ' ∨ c = '\t' ∨ c = '\n' ∨ c = '\r') →
      bracketDepth (String.ofList (cs ++ blanks ++ ds)) =
        bracketDepth (String.ofList (cs ++ ds)) := by
  constructor
  · intro b hcommand hpos n depth line b'
    have hopen : b.IsOpen depth := ⟨hcommand, rfl, hpos⟩
    obtain ⟨hpress, hstill⟩ := hopen.enterAll n
    exact ⟨hpress, hstill.depth_eq⟩
  · intro cs blanks ds h
    refine bracketDepth_insert (fun c hc => ?_) cs ds
    simpa [Token.isBlank, or_assoc] using h c hc

/-- The cursor stands in a string, between the two characters of what could be an operator there,
and three new lines go into it. -/
theorem enter_keeps_entries_open_string :
    let b := Buffer.ofText "f([ \"(==\", 1".toList 7
    let line := '\n' :: List.replicate 8 ' '
    let b' : Buffer := ⟨b.before ++ (line ++ line ++ line), b.behind⟩
    (Text.stripLeft b.text).head? ≠ some '/' ∧ bracketDepth (String.ofList b.text) = 2 ∧
      b.pressAll [.enter, .enter, .enter] = (b', []) ∧
      bracketDepth (String.ofList b'.text) = 2 ∧
      bracketDepth (String.ofList ("f([ \"(=".toList ++ ['\t', '\r'] ++ "=\", 1".toList)) = 2 := by
  intro b line b'
  have hcommand : (Text.stripLeft b.text).head? ≠ some '/' := by decide
  have hdepth : bracketDepth (String.ofList b.text) = 2 := by decide +kernel
  have hpos : 0 < bracketDepth (String.ofList b.text) := by omega
  obtain ⟨hpress, hstill⟩ := enter_keeps_entries_open.1 b hcommand hpos 3
  rw [hdepth] at hpress hstill
  refine ⟨hcommand, hdepth, hpress, hstill, ?_⟩
  exact (enter_keeps_entries_open.2 _ ['\t', '\r'] _ (by simp)).trans hdepth

end Monkey.Buffer
