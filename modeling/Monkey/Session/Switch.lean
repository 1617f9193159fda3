/-!
# Switches

A switch is turned on or off by a word, or over by none.  The words may be written with
capitals.  The setting for traces is a switch that lives in a variable of the
environment, which may also hold anything else.

## Main definitions

* `Switch.setTo?` — what a word sets a switch to.
* `Trace` — the variable, with `Trace.enabled` and `Trace.set`.
-/

namespace Monkey

namespace Switch

/-- The words that turn a switch on. -/
def onWords : List String := ["on", "1", "true", "yes"]

/-- The words that turn a switch off. -/
def offWords : List String := ["off", "0", "false", "no"]

/-- What a word sets a switch to, if it is one of the words; no word turns the switch
over. -/
def setTo? (word : String) (now : Bool) : Option Bool :=
  if word.toLower ∈ onWords then some true
  else if word.toLower ∈ offWords then some false
  else if word.isEmpty then some (!now)
  else none

/-- How the state of a switch is told. -/
def tell : Bool → String
  | true => "on"
  | false => "off"

end Switch

/-- The variable that holds the setting for traces, if it is set. -/
abbrev Trace := Option String

namespace Trace

/-- Traces are on unless the variable is unset, empty or zero. -/
def enabled : Trace → Bool
  | none => false
  | some setting => setting ≠ "" && setting ≠ "0"

/-- The variable with traces turned on or off. -/
def set : Bool → Trace
  | true => some "1"
  | false => none

@[simp] theorem enabled_set (on : Bool) : (set on).enabled = on := by
  cases on <;> decide

end Trace

end Monkey
