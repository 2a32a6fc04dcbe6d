import MutationLab.Machine.Basic
import MutationLab.Result

/-! # Clocks

A clock says how the runs of tests are timed: when a limit is noticed, and when a run is over.
It need not treat two runs alike, but it does not run backwards. The steady clock counts the
steps of the machine, so that a run has the same outcome every time. -/

namespace MutationLab

/-- How a run is timed that begins at a moment. -/
structure Timing (start : Duration) where
  /-- What tells the machine that the limit has passed. -/
  watchdog : Watchdog
  /-- Whether a result is there before the limit has passed. -/
  arrives : ExecutionResult → Bool
  /-- The moment at which the run is over. -/
  stop : Duration
  start_le_stop : start ≤ stop

/-- How all runs are timed under a limit in milliseconds. A run is known by the mutant that is
active in it, if one is, by its test, and by the moment at which it begins: the time that has
passed since the first run with this mutant began. -/
structure Clock where
  timing : (mutant : Option Point) → Test → (start : Duration) → (millis : Nat) → Timing start

/-- Time in steps of the machine. A run that its watchdog has stopped is late, and without any
time every run is. No running time is measured. -/
def Timing.steady (stepsPerMilli : Nat) (start : Duration) (millis : Nat) : Timing start where
  watchdog := .after (millis * stepsPerMilli)
  arrives r := millis ≠ 0 && !(r.status = .timedout ∧ r.exit = none ∧ r.stderr = "timed out")
  stop := start
  start_le_stop := start.le_refl

/-- The clock on which a machine makes so many steps in every millisecond. -/
def Clock.steady (stepsPerMilli : Nat) : Clock := ⟨fun _ _ => Timing.steady stepsPerMilli⟩

end MutationLab
