import MutationLab.Editor
import MutationLab.Pool
import MutationLab.Testing

/-! # Running mutants

A mutant is run with the tests that reach its function, in order, until one does not
pass. That test decides about the mutant; if all pass, the mutant survives. Running a test
may change a state, which is handed on to the next test. -/

namespace MutationLab

/-- Who is told about each mutant: what is written about it, unless telling fails. -/
abbrev Reporter := Point → (killed : Bool) → Except Panic (List String)

/-- The reporter for an editor. -/
def EditorMode.reporter (mode : EditorMode) : Reporter := fun p killed =>
  .ok (Editor.report mode p killed)

namespace Execution

/-- The panic of adding running times that are too long together. -/
def overflow : Panic := .text "overflow when adding durations"

/-- The deciding result of the tests `id` and `ids`, after tests that passed and took `total`, and
the state that is left. Each test is run in the state that the one before it has left. The running
times are added up. -/
def decideFrom (tests : List Test) (run : Test → σ → ExecutionResult × σ) :
    (total : Duration) → (id : TestId) → (ids : List TestId) → σ → Except Panic ExecutionResult × σ
  | total, id, ids, s =>
      match tests[id]? with
      | none => (.ok (.invalid s!"unknown test {id}"), s)
      | some test =>
          let (result, s) := run test s
          match total.add? result.time with
          | none => (.error overflow, s)
          | some total =>
              match result.status, ids with
              | .passed, id :: ids => decideFrom tests run total id ids s
              | _, _ => (.ok (result.withTime total), s)

/-- The result that decides about a mutant, and the state that its tests leave. -/
def decide (tests : List Test) (run : Test → σ → ExecutionResult × σ) (p : Point) (s : σ) :
    Except Panic ExecutionResult × σ :=
  match p.tests with
  | [] => (.ok (.invalid s!"no test reaches {p.id}"), s)
  | id :: ids => decideFrom tests run .zero id ids s

/-- One test with a mutant active, and the moment at which it is over. -/
def runMutant (framework : Framework) (image : Image) (sandbox : Sandbox)
    (timing : Test → (start : Duration) → Timing start) (p : Point) (test : Test)
    (start : Duration) : ExecutionResult × Duration :=
  let job := fun watchdog => .ok (framework.run image test { selector := some p.id, watchdog })
  ((sandbox.run job (timing test start)).1, (timing test start).stop)

/-- The task that decides about a mutant and reports it; the state is what reporting has
written, the latest first. -/
def task (decide : Point → Except Panic ExecutionResult) (reporter : Reporter) :
    Task (List String) Point MutationResult := fun p written =>
  match decide p with
  | .error panic => ({ ending := .panicked panic }, written)
  | .ok result =>
      if result.status = .invalid then ({ outputs := [⟨p, result⟩] }, written)
      else
        match reporter p result.status.isKilled with
        | .error panic => ({ ending := .panicked panic }, written)
        | .ok lines => ({ outputs := [⟨p, result⟩] }, lines.reverse ++ written)

/-- The task that only lists a mutant. -/
def listing : Task σ Point MutationResult :=
  .stateless fun p => { outputs := [⟨p, .dryRun⟩] }

end Execution

end MutationLab
