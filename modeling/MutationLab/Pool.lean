import MutationLab.Application
import MutationLab.Compile
import MutationLab.Log
import MutationLab.Partition
import MutationLab.Sandbox

/-! # Worker pools

A stage runs one task on many inputs. The inputs are dealt out in slices, one for each
worker; a worker goes through its slice until an input fails. The outputs of the workers
are joined in the order of the slices. A single worker runs in place, so that a panic
ends the stage; of several, one that panics only loses its outputs. -/

namespace MutationLab

/-- Why an input fails. -/
inductive TaskError where
  /-- A module does not compile. -/
  | compile (e : CompileError)
  /-- A step of applying mutations is refused. -/
  | application (e : ApplicationError)
  /-- There is no module of this number. -/
  | unknownModule (id : ModuleId)
  deriving DecidableEq, Repr

/-- The text of an error. -/
def TaskError.message : TaskError → String
  | compile e => s!"compile error: {e.message}"
  | application e => s!"mutation application error: {e.message}"
  | unknownModule id => s!"unknown module ModuleId({id})"

/-- How the work on an input ends. -/
inductive Ending where
  /-- It is done. -/
  | done
  /-- It fails, and the worker stops. -/
  | failed (e : TaskError)
  /-- The worker is torn down. -/
  | panicked (p : Panic)
  deriving DecidableEq, Repr

/-- The work on one input. -/
structure Step (β : Type) where
  /-- What the task says by itself. -/
  messages : List Message := []
  outputs : List β := []
  ending : Ending := .done

/-- A task: the work on an input, which may change a state. -/
abbrev Task (σ α β : Type) := α → σ → Step β × σ

namespace Task

/-- A task that keeps no state. -/
def stateless (work : α → Step β) : Task σ α β := fun x s => (work x, s)

end Task

namespace Pool

/-- What all workers of a stage share. -/
structure Shared (σ : Type) where
  /-- The number of inputs done. -/
  done : Nat := 0
  log : Log
  state : σ

/-- The work of one worker on its slice: its outputs, or the panic that tore it down. -/
def work (label : String) (total : Nat) (task : Task σ α β) :
    List α → Shared σ → Except Panic (List β) × Shared σ
  | [], s => (.ok [], s)
  | x :: xs, s =>
      let (step, state) := task x s.state
      let s := { s with log := s.log.addAll step.messages, state }
      match step.ending with
      | .panicked p => (.error p, s)
      | .failed e => (.ok step.outputs, { s with log := s.log.error s!"{label}: {e.message}" })
      | .done =>
          let done := s.done + 1
          let (rest, s) :=
            work label total task xs { s with done, log := s.log.progress label done total }
          (rest.map (step.outputs ++ ·), s)

/-- The work of several workers, one slice after the other. -/
def workAll (label : String) (total : Nat) (task : Task σ α β) :
    List (List α) → Shared σ → List β × Shared σ
  | [], s => ([], s)
  | slice :: slices, s =>
      let (outputs, s) := work label total task slice s
      let (rest, s) := workAll label total task slices s
      match outputs with
      | .ok outputs => (outputs ++ rest, s)
      | .error _ => (rest, { s with log := s.log.error s!"{label}: worker panicked" })

/-- The message at the end of a stage. No time is measured. -/
def finished (label : String) : String := s!"{label}. Finished in 0ms"

/-- The end of a stage. -/
def close (label : String) (total : Nat) (log : Log) : Log :=
  (if total = 0 then log.progress label 0 0 else log).debug (finished label)

/-- Run a stage with a number of workers. -/
def execute (label : String) (workers : Nat) (task : Task σ α β) (inputs : List α) (log : Log)
    (state : σ) : Except Panic (List β) × Log × σ :=
  let total := inputs.length
  if workers = 0 then (.ok [], log.error s!"{label}: no workers", state)
  else
    let log := log.debug s!"{label} ({total} items, {workers} workers)"
    if workers = 1 then
      match work label total task inputs { log, state } with
      | (.error p, s) => (.error p, s.log, s.state)
      | (.ok outputs, s) => (.ok outputs, close label total s.log, s.state)
    else
      let (outputs, s) := workAll label total task (Partition.slices workers inputs) { log, state }
      (.ok outputs, close label total s.log, s.state)

/-- The task that changes the element at a position of a list. -/
def atPosition (work : α → Step β × α) : Task (List α) Nat β := fun position xs =>
  match xs[position]? with
  | none => ({}, xs)
  | some x =>
      let (step, x) := work x
      (step, xs.set position x)

/-- Run a stage that changes the elements of a list in place. An element that no worker
comes to stays as it is. -/
def executeInPlace (label : String) (workers : Nat) (work : α → Step β × α) (xs : List α)
    (log : Log) : Except Panic (List β) × Log × List α :=
  execute label workers (atPosition work) (List.range xs.length) log xs

/-- Run a step that is done by no more than one worker. -/
def single (label : String) (job : Log → α × Log) (log : Log) : α × Log :=
  let (result, log) := job (log.debug label)
  (result, (log.progress label 1 1).debug (finished label))

end Pool

end MutationLab
