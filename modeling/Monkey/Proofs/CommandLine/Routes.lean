import Monkey.Proofs.CommandLine.Status

/-!
# The routes to a command

A program is an argument, or it is in a file that an argument leads to, or on the input.  The
command does the same with it whichever way it comes: flags may stand anywhere among the arguments,
and more than once, and it matters only whether they are there.

## Main definitions

* `CommandLine.IsOperand` — the arguments that are no flag and do not stand for the input.
* `CommandLine.Route` — the ways in which a text can be given to a command.

## Main results

* `CommandLine.arguments?_of_filter` — what some arguments ask for.
* `CommandLine.command_of_route` — what a command does with a text.
* `CommandLine.routes_agree` — it is the same by every route, and when it fails.
-/

namespace Monkey.CommandLine

/-- An argument that is no flag, known or unknown, and does not stand for the input. -/
structure IsOperand (argument : String) : Prop where
  not_empty : argument ≠ ""
  not_dash : argument ≠ "-"
  not_flag : "--".isPrefixOf argument = false

/-- The ways in which a text is given to a command, each with the argument that it takes. -/
inductive Route (c : Context) (text : String) : Option String → Prop
  /-- The text is an argument, and not the path of a file. -/
  | argument (no_file : ∀ bytes, c.find (tidyPath text) ≠ .ok (.file bytes)) :
    Route c text (some text)
  /-- The text is on the input, and a dash says so. -/
  | dash (given : c.input = text) : Route c text (some "-")
  /-- The text is on the input, and there is no argument. -/
  | input (given : c.input = text) : Route c text none
  /-- The text is in a file that an argument leads to. -/
  | file {path : String} (operand : IsOperand path)
    (holds : c.find (tidyPath path) = .ok (.file text.toUTF8)) : Route c text (some path)

/-- The flags. -/
abbrev flags : List String := ["--ast", "--tokens"]

variable {depth : Nat} {c : Context} {text : String} {operand : Option String}
  {argv : List String}

/-! ### Arguments -/

/-- What is no flag is none of the known ones. -/
theorem ne_flags {x : String} (h : "--".isPrefixOf x = false) : x ≠ "--ast" ∧ x ≠ "--tokens" := by
  constructor
  · rintro rfl
    exact absurd h (by decide +kernel)
  · rintro rfl
    exact absurd h (by decide +kernel)

theorem add_operand {a : Arguments} {x : String} (hx : "--".isPrefixOf x = false)
    (h : a.source = none) : a.add x = .ok { a with source := some x } := by
  simp [Arguments.add, ne_flags hx, hx, h]

/-- Flags are set wherever they stand, and however often. -/
theorem foldlM_add_flags (h : ∀ x ∈ argv, x ∈ flags) (a : Arguments) :
    argv.foldlM Arguments.add a =
      .ok { a with
        outline := a.outline || decide ("--ast" ∈ argv)
        tokens := a.tokens || decide ("--tokens" ∈ argv) } := by
  induction argv generalizing a with
  | nil => simp [pure, Except.pure]
  | cons x argv ih =>
    obtain ⟨hx, hargv⟩ := List.forall_mem_cons.mp h
    have hrest := ih hargv
    simp only [List.mem_cons, List.not_mem_nil, or_false] at hx
    rw [List.foldlM_cons]
    rcases hx with rfl | rfl
    · have hadd : a.add "--ast" = .ok { a with outline := true } := rfl
      simp [hadd, bind, Except.bind, hrest]
    · have hadd : a.add "--tokens" = .ok { a with tokens := true } := rfl
      simp [hadd, bind, Except.bind, hrest]

/-- What is left out with the flags is a flag. -/
theorem mem_flags_of_not {x : String} (h : ¬ decide (x ∉ flags) = true) : x ∈ flags :=
  Decidable.of_not_not fun hx => h (decide_eq_true hx)

/-- **What arguments ask for that are flags but for the operand.** -/
theorem arguments?_of_filter (known : ∀ x ∈ operand, "--".isPrefixOf x = false)
    (h : argv.filter (· ∉ flags) = operand.toList) :
    arguments? argv = .ok ⟨decide ("--ast" ∈ argv), decide ("--tokens" ∈ argv), operand⟩ := by
  cases operand with
  | none =>
    have hargv : ∀ x ∈ argv, x ∈ flags := fun x hx =>
      mem_flags_of_not (List.filter_eq_nil_iff.mp h x hx)
    rw [arguments?, foldlM_add_flags hargv]
    simp
  | some x =>
    obtain ⟨before, after, rfl, hbefore, -, hafter⟩ := List.filter_eq_cons_iff.mp h
    have hbefore : ∀ y ∈ before, y ∈ flags := fun y hy => mem_flags_of_not (hbefore y hy)
    have hafter : ∀ y ∈ after, y ∈ flags := fun y hy =>
      mem_flags_of_not (List.filter_eq_nil_iff.mp hafter y hy)
    have hx := known x rfl
    obtain ⟨hast, htokens⟩ := ne_flags hx
    rw [arguments?, List.foldlM_append, foldlM_add_flags hbefore]
    simp only [bind, Except.bind, List.foldlM_cons]
    rw [add_operand hx rfl]
    simp [foldlM_add_flags hafter, hast.symm, htokens.symm]

/-! ### Sources -/

/-- An operand is the path of a file, or else the program. -/
theorem source_of_isOperand {argument : String} (h : IsOperand argument) :
    source c (some argument) =
      match c.find (tidyPath argument) with
      | .ok (.file bytes) => (fileText bytes).mapError .unreadable
      | _ => .ok argument := by
  have hinput : isInput (some argument) = false := by simp [isInput, h.not_empty, h.not_dash]
  rw [source, hinput]
  rfl

/-- A text without carriage returns is read from the input as it is. -/
theorem inputText_of_eq (no_return : '\r' ∉ text.toList) (h : c.input = text) :
    c.inputText = text := by
  rw [Context.inputText, h, Text.unifyLineEnds_of_not_mem no_return, String.ofList_toList]

/-- A text without carriage returns is read from its encoding as it is. -/
theorem fileText_toUTF8 (no_return : '\r' ∉ text.toList) :
    fileText text.toUTF8 = .ok text := by
  rw [fileText, Text.Utf8.decode_toUTF8]
  simp only [Text.unifyLineEnds_of_not_mem no_return, String.ofList_toList]

/-- **By every route the text of the program is the one that was given.** -/
theorem source_of_route (is_operand : IsOperand text) (no_return : '\r' ∉ text.toList)
    (h : Route c text operand) : source c operand = .ok text := by
  have nonempty : text.isEmpty = false := by simpa using is_operand.not_empty
  cases h with
  | argument no_file =>
    rw [source_of_isOperand is_operand]
    split
    · next bytes hfile => exact absurd hfile (no_file bytes)
    · rfl
  | dash given =>
    rw [source, if_pos (by decide), inputText_of_eq no_return given, nonempty]
    rfl
  | input given =>
    rw [source, if_pos (by decide), inputText_of_eq no_return given, nonempty]
    rfl
  | file path_operand holds =>
    rw [source_of_isOperand path_operand, holds]
    simp only [fileText_toUTF8 no_return]
    rfl

/-! ### Commands -/

theorem Route.known (h : Route c text operand) (is_operand : IsOperand text) :
    ∀ x ∈ operand, "--".isPrefixOf x = false := by
  rintro x rfl
  cases h with
  | argument => exact is_operand.not_flag
  | dash => decide +kernel
  | file path_operand => exact path_operand.not_flag

/-- **What a command does with a text that is given to it.** -/
theorem command_of_route (is_operand : IsOperand text) (no_return : '\r' ∉ text.toList)
    (h : Route c text operand) (flagged : argv.filter (· ∉ flags) = operand.toList) :
    command depth c argv =
      execute depth c.trace ⟨decide ("--ast" ∈ argv), decide ("--tokens" ∈ argv), none⟩ text := by
  rw [command, arguments?_of_filter (h.known is_operand) flagged]
  simp only [source_of_route is_operand no_return h]
  rfl

/-- **All routes agree.**  Let a text be no flag, not empty and not the dash, and have no carriage
return.  Let it be given as an argument, unless that is the path of a file, or on the input, with
the dash or without an argument, or in a file in UTF-8; and let flags stand anywhere among the
arguments, and as often as one likes.  Then what the command prints and how it ends is the same by
every route, if the same flags are there.  It ends with 1 if no tokens are asked for and the parser
complains, or something goes too deep, or no outline is asked for and the text comes to an error.
Otherwise it ends with 0. -/
theorem routes_agree (is_operand : IsOperand text) (no_return : '\r' ∉ text.toList)
    {c c' : Context} (same_trace : c.trace = c'.trace) {operand operand' : Option String}
    (route : Route c text operand) (route' : Route c' text operand') {argv argv' : List String}
    (flagged : argv.filter (· ∉ ["--ast", "--tokens"]) = operand.toList)
    (flagged' : argv'.filter (· ∉ ["--ast", "--tokens"]) = operand'.toList)
    (same_outline : "--ast" ∈ argv ↔ "--ast" ∈ argv')
    (same_tokens : "--tokens" ∈ argv ↔ "--tokens" ∈ argv') (depth : Nat) :
    command depth c argv = command depth c' argv' ∧
    ((command depth c argv).status.code = 1 ↔
      Fails depth ("--ast" ∈ argv) ("--tokens" ∈ argv) text) ∧
    ((command depth c argv).status.code = 0 ↔
      ¬ Fails depth ("--ast" ∈ argv) ("--tokens" ∈ argv) text) := by
  have hone : (command depth c argv).status.code = 1 ↔
      Fails depth ("--ast" ∈ argv) ("--tokens" ∈ argv) text := by
    rw [command_of_route is_operand no_return route flagged, code_execute_iff]
    simp only [decide_eq_true_eq]
  refine ⟨?_, hone, code_eq_zero_iff.trans (not_congr hone)⟩
  rw [command_of_route is_operand no_return route flagged,
    command_of_route is_operand no_return route' flagged', same_trace,
    decide_eq_decide.mpr same_outline, decide_eq_decide.mpr same_tokens]

/-- An operand with a dash in front: the program comes to an error, and it has an outline. -/
theorem routes_agree_error :
    let text := "-true"
    let c : Context := { input := text }
    let c' : Context :=
      { find := fun path =>
          if path = tidyPath "./f" then .ok (.file text.toUTF8) else .error .notFound }
    IsOperand text ∧ '\r' ∉ text.toList ∧
      (Route c text (some text) ∧ Route c text none ∧ Route c text (some "-") ∧
        Route c' text (some "./f")) ∧
      (command 9 c [text] = command 9 c [] ∧ (command 9 c [text]).status.code = 1) ∧
      command 9 c' ["--ast", "./f", "--ast"] = command 9 c ["--ast", "-"] ∧
        (command 9 c' ["--ast", "./f", "--ast"]).status.code = 0 := by
  intro text c c'
  have is_operand : IsOperand text := ⟨by decide, by decide, by decide +kernel⟩
  have path_operand : IsOperand "./f" := ⟨by decide, by decide, by decide +kernel⟩
  have no_return : '\r' ∉ text.toList := by decide
  have hargument : Route c text (some text) := .argument nofun
  have hinput : Route c text none := .input rfl
  have hdash : Route c text (some "-") := .dash rfl
  have hfile : Route c' text (some "./f") := .file path_operand (if_pos rfl)
  have same_trace : c'.trace = c.trace := rfl
  obtain ⟨hrun, hone, -⟩ := routes_agree is_operand no_return rfl hargument hinput
    (by decide : [text].filter _ = _) (by decide : [].filter _ = _) (by decide) (by decide) 9
  obtain ⟨hshown, -, hzero⟩ := routes_agree is_operand no_return same_trace hfile hdash
    (by decide : ["--ast", "./f", "--ast"].filter _ = _) (by decide : ["--ast", "-"].filter _ = _)
    (by decide) (by decide) 9
  refine ⟨is_operand, no_return, ⟨hargument, hinput, hdash, hfile⟩, ⟨hrun, hone.mpr ?_⟩, hshown,
    hzero.mpr ?_⟩
  · have hran : (ran 9 none text).status.code = 1 := by decide +kernel
    exact ⟨by decide, (code_ran_iff.mp hran).imp_right fun h => .inr ⟨by decide, h⟩⟩
  · have houtlined : (outlined 9 none text).status.code = 0 := by decide +kernel
    have hneither := mt code_outlined_iff.mpr (code_eq_zero_iff.mp houtlined)
    rintro ⟨-, hrefused | ⟨-, hdeep⟩ | ⟨hrun, -⟩⟩
    · exact hneither (.inl hrefused)
    · exact hneither (.inr hdeep)
    · exact hrun (by decide)

end Monkey.CommandLine
