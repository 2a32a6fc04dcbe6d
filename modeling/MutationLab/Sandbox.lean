import MutationLab.Clock

/-! # Sandboxes

A sandbox runs a job under a time limit. A job that panics becomes a crash, and a limit
that is exceeded ends only this run. The sandbox measures how long the run takes. -/

namespace MutationLab

/-- What a failing job leaves. -/
inductive Panic where
  /-- A text. -/
  | text (message : String)
  /-- Something else. -/
  | other
  deriving DecidableEq, Repr

/-- The text of a panic. -/
def Panic.message : Panic → String
  | text message => message
  | other => "panic"

/-- What a job ends with: a result and what else it has found out, or a panic. -/
abbrev JobOutcome (α : Type) := Except Panic (ExecutionResult × α)

/-- How jobs are isolated. -/
inductive Sandbox where
  /-- The job runs where it is called and watches its limit itself. -/
  | inline
  /-- The job is also watched from outside: a result that arrives too late is dropped. -/
  | watched
  deriving DecidableEq, Repr

namespace Sandbox

/-- The result of a job that has ended. -/
def settle : JobOutcome α → ExecutionResult × Option α
  | .ok (result, found) => (result, some found)
  | .error panic => (.crashed panic.message, none)

/-- Take the result of a job, or give it up. -/
def await {start : Duration} (sandbox : Sandbox) (job : Watchdog → JobOutcome α)
    (timing : Timing start) : ExecutionResult × Option α :=
  let (result, found) := settle (job timing.watchdog)
  match sandbox with
  | inline => (result, found)
  | watched => if timing.arrives result then (result, found) else (.timedOut, none)

/-- Run a job under a limit: its result with the time that it took, and what else it has found
out. -/
def run {start : Duration} (sandbox : Sandbox) (job : Watchdog → JobOutcome α)
    (timing : Timing start) : ExecutionResult × Option α :=
  let (result, found) := sandbox.await job timing
  (result.withTime (timing.stop.since start), found)

end Sandbox

end MutationLab
