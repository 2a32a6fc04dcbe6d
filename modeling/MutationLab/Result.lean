import MutationLab.Duration
import MutationLab.Point

/-! # Results

What came of running one test, of running a mutant, and of the whole run. -/

namespace MutationLab

/-- The verdict of one execution. -/
inductive Status where
  /-- Something inside is inconsistent; no completed run has it. -/
  | invalid
  /-- The test passed: a mutant survives it. -/
  | passed
  /-- The test failed. -/
  | failed
  /-- The run ended in a fault. -/
  | crashed
  /-- The run took too long. -/
  | timedout
  /-- Nothing was executed. -/
  | dryRun
  deriving DecidableEq, Repr

namespace Status

/-- Every status under its name in reports. -/
def names : List (String × Status) :=
  [("invalid", invalid), ("passed", passed), ("failed", failed), ("crashed", crashed),
    ("timedout", timedout), ("dry_run", dryRun)]

/-- The name in reports. -/
def name : Status → String
  | invalid => "invalid"
  | passed => "passed"
  | failed => "failed"
  | crashed => "crashed"
  | timedout => "timedout"
  | dryRun => "dry_run"

/-- Whether the status kills a mutant. -/
def isKilled : Status → Bool
  | failed | crashed | timedout => true
  | invalid | passed | dryRun => false

end Status

/-- The outcome of one execution. -/
structure ExecutionResult where
  status : Status
  /-- The running time. -/
  time : Duration := .zero
  /-- The value of the entry function, when it returned. -/
  exit : Option Int64 := none
  stdout : String := ""
  /-- The description of a fault. -/
  stderr : String := ""
  deriving DecidableEq, Repr

namespace ExecutionResult

/-- A fault. -/
def crashed (stderr : String) : ExecutionResult := { status := .crashed, stderr }

/-- A run that was stopped by its limit. -/
def timedOut : ExecutionResult := { status := .timedout, stderr := "timed out" }

/-- An inconsistency. -/
def invalid (stderr : String) : ExecutionResult := { status := .invalid, stderr }

/-- The result of a mutant that was not executed. -/
def dryRun : ExecutionResult := { status := .dryRun }

/-- The result with another running time. -/
def withTime (r : ExecutionResult) (time : Duration) : ExecutionResult := { r with time }

@[simp] theorem status_withTime (r : ExecutionResult) (time : Duration) :
    (r.withTime time).status = r.status := rfl

end ExecutionResult

/-- A point and the result that decides about its mutant. -/
structure MutationResult where
  point : Point
  result : ExecutionResult
  deriving DecidableEq, Repr

/-- Whether the mutant was detected. -/
def MutationResult.isKilled (r : MutationResult) : Bool := r.result.status.isKilled

/-- A test: a function that is called without arguments. -/
structure Test where
  id : TestId
  name : String
  symbol : String
  module : ModuleId
  location : Option Location
  deriving DecidableEq, Repr

/-- The outcome of a whole run. -/
structure PipelineResult where
  tests : List Test := []
  results : List MutationResult := []
  /-- The points that the filters left, in the order of their ids. -/
  points : List Point := []
  deriving DecidableEq, Repr

end MutationLab
