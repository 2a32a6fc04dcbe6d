import MutationLab.Proofs.Interleaving
import MutationLab.Proofs.Pipeline.Alignment
import MutationLab.Proofs.Reporting

/-! # What editors are told

Only the stage that runs mutants writes lines for editors; all other parts of a run are silent
(`Run.Silent`). A mutant is told about when its result is decided, so what is written are the lines
of the results, in the order in which the workers take the points
(`Pipeline.written_of_finished`). The lines are taken from the verdicts, as the reports are, and
all of them agree (`Pipeline.reports_agree`). -/

namespace MutationLab

open Relation (ReflTransGen)

/-! ## Silent parts of a run -/

namespace Run

/-- A part of a run that writes no lines for editors. -/
structure Silent (x : Run α) : Prop where
  written_eq : ∀ w, (x.run.run w).2.written = w.written

/-- What a silent part leaves. -/
theorem Silent.written_of_run {x : Run α} (hx : x.Silent) {w later : Workspace}
    {answer : Except PipelineError α} (h : x.run.run w = (answer, later)) :
    later.written = w.written := by
  have hwritten := hx.written_eq w
  rwa [h] at hwritten

theorem silent_pure (a : α) : (pure a : Run α).Silent := ⟨fun _ => rfl⟩

theorem silent_throw (e : PipelineError) : (throw e : Run α).Silent := ⟨fun _ => rfl⟩

/-- Silent parts are chained. -/
theorem Silent.bind {x : Run α} {f : α → Run β} (hx : x.Silent) (hf : ∀ a, (f a).Silent) :
    (x >>= f).Silent where
  written_eq w := by
    have hwritten := hx.written_eq w
    rw [ExceptT.run_bind, StateT.run_bind]
    rcases hrun : x.run.run w with ⟨e | a, between⟩ <;> rw [hrun] at hwritten
    · exact hwritten
    · exact ((hf a).written_eq between).trans hwritten

/-- The workspace can be looked at. -/
theorem silent_get_bind {f : Workspace → Run α} (h : ∀ w, (f w).Silent) : (get >>= f).Silent :=
  ⟨fun w => (h w).written_eq w⟩

theorem silent_say (level : Level) (text : String) : (say level text).Silent := ⟨fun _ => rfl⟩

theorem silent_single (label : String) (job : Workspace → α × List Message) :
    (single label job).Silent := ⟨fun _ => rfl⟩

theorem silent_stage (label : String) (workers : Nat) (task : Task Unit α β) (inputs : List α) :
    (stage label workers task inputs).Silent := ⟨fun _ => rfl⟩

theorem silent_stageOnFiles (label : String) (workers : Nat) (task : Task FileTree α β)
    (inputs : List α) : (stageOnFiles label workers task inputs).Silent := ⟨fun _ => rfl⟩

theorem silent_stageOnSubjects (label : String) (workers : Nat)
    (work : Subject → Step β × Subject) : (stageOnSubjects label workers work).Silent :=
  ⟨fun _ => rfl⟩

theorem silent_ensureCount (label : String) (expected actual : Nat) :
    (ensureCount label expected actual).Silent := by
  rw [ensureCount]
  split
  · exact silent_pure ()
  · exact silent_throw _

theorem silent_ensureStage (label : String) (stage : Stage) : (ensureStage label stage).Silent :=
  silent_get_bind fun _ => silent_ensureCount ..

end Run

namespace Pipeline

section

variable (p : Pipeline)

theorem silent_compileAll (label : String) (probes : Option Probes) :
    (p.compileAll label probes).Silent := by
  refine Run.silent_get_bind fun w => (Run.silent_stageOnFiles ..).bind fun objects => ?_
  exact (Run.silent_ensureCount ..).bind fun _ => Run.silent_pure _

theorem silent_filterFunctions (program : Program) (filters : List FunctionFilter)
    (cs : List Candidate) : (p.filterFunctions program filters cs).Silent := by
  induction filters generalizing cs with
  | nil => exact Run.silent_pure cs
  | cons filter filters ih => exact (Run.silent_stage ..).bind ih

theorem silent_dropPoints (filters : List PointFilter) (points : List Point) :
    (p.dropPoints filters points).Silent := by
  induction filters generalizing points with
  | nil => exact Run.silent_pure points
  | cons filter filters ih => exact (Run.silent_stage ..).bind ih

theorem silent_findPoints (probes : Probes) (instrumented libraries : List ObjectFile)
    (tests : List Test) : (p.findPoints probes instrumented libraries tests).Silent := by
  rw [findPoints]
  split
  · exact (Run.silent_say ..).bind fun _ => Run.silent_pure []
  · refine (Run.silent_single ..).bind fun loaded => ?_
    rcases loaded with e | _ | image
    · exact Run.silent_throw _
    · exact Run.silent_throw _
    · refine Run.silent_get_bind fun w => ?_
      refine ((Run.silent_stage ..).bind fun _ => Run.silent_pure _).bind fun covered => ?_
      refine (p.silent_filterFunctions _ _ covered).bind fun kept => ?_
      exact Run.Silent.bind ⟨fun _ => rfl⟩ fun selected => ⟨fun _ => rfl⟩

/-- What a run finds out, it finds out in silence. -/
theorem silent_survey : p.survey.Silent := by
  refine Run.silent_get_bind fun w => (p.silent_compileAll ..).bind fun instrumented => ?_
  refine (Run.silent_single ..).bind fun libraries => (Run.silent_single ..).bind fun tests => ?_
  refine (Run.silent_say ..).bind fun _ => (p.silent_findPoints ..).bind fun found => ?_
  exact (p.silent_dropPoints ..).bind fun kept => Run.silent_pure _

/-- So it puts mutants into the program. -/
theorem silent_applyMutations (points : List Point) : (p.applyMutations points).Silent := by
  refine Run.Silent.bind ⟨fun _ => rfl⟩ fun _ => ?_
  refine (Run.silent_stageOnSubjects ..).bind fun _ => (Run.silent_ensureCount ..).bind fun _ => ?_
  refine (Run.silent_stageOnSubjects ..).bind fun _ => (Run.silent_ensureStage ..).bind fun _ => ?_
  refine (Run.silent_stageOnSubjects ..).bind fun _ => (Run.silent_ensureStage ..).bind fun _ => ?_
  exact Run.Silent.bind ⟨fun _ => rfl⟩ fun _ => Run.silent_ensureCount ..

/-- So it builds them. -/
theorem silent_buildMutants (libraries : List ObjectFile) : (p.buildMutants libraries).Silent := by
  refine (p.silent_compileAll ..).bind fun objects => (Run.silent_single ..).bind fun linked => ?_
  rcases linked with e | image
  · exact Run.silent_throw _
  · exact Run.silent_pure image

/-- So it checks their results. -/
theorem silent_check (points : List Point) (found : List MutationResult) :
    (check points found).Silent := by
  rw [check]
  split
  · exact Run.silent_throw _
  · exact Run.silent_pure _

end

end Pipeline

/-! ## Lines of results -/

/-- The lines for an editor about results: one for each that is wanted and has a location. -/
def Editor.lines (mode : EditorMode) (results : List MutationResult) : List String :=
  (results.filter fun m => mode.wants m.isKilled).filterMap fun m =>
    m.point.location.map fun l => line m.point l m.isKilled

namespace Execution

/-- What the task for mutants tells an editor about a point. -/
def told (decide : Point → ExecutionResult) (mode : EditorMode) (point : Point) : List String :=
  if (decide point).status = .invalid then []
  else Editor.report mode point (decide point).status.isKilled

section

variable (decide : Point → ExecutionResult) (mode : EditorMode)

/-- The task puts out the result of a point, and tells about it. -/
theorem task_reporter (point : Point) (written : List String) :
    task (fun point => .ok (decide point)) mode.reporter point written =
      ({ outputs := [⟨point, decide point⟩] }, (told decide mode point).reverse ++ written) := by
  rw [task, told]
  dsimp only
  split <;> rfl

/-- What is told about several points is written in their order, the latest first. -/
theorem foldl_task_reporter (points : List Point) (written : List String) :
    points.foldl (fun written point =>
        (task (fun point => .ok (decide point)) mode.reporter point written).2) written =
      (points.flatMap (told decide mode)).reverse ++ written := by
  induction points generalizing written with
  | nil => rfl
  | cons point points ih =>
    rw [List.foldl_cons, ih, task_reporter, List.flatMap_cons, List.reverse_append,
      List.append_assoc]

theorem fst_task_reporter (point : Point) (written : List String) :
    (task (fun point => .ok (decide point)) mode.reporter point written).1 =
      { outputs := [⟨point, decide point⟩] } :=
  congrArg Prod.fst (task_reporter decide mode point written)

variable {decide}

/-- Where no result is invalid, this is told by the lines of the results. -/
theorem flatMap_told {points : List Point}
    (h : ∀ point ∈ points, (decide point).status ≠ .invalid) :
    points.flatMap (told decide mode) =
      Editor.lines mode (points.map fun point => ⟨point, decide point⟩) := by
  induction points with
  | nil => rfl
  | cons point points ih =>
    rw [List.forall_mem_cons] at h
    rw [List.flatMap_cons, ih h.2, told, if_neg h.1, Editor.report, Editor.lines, Editor.lines,
      List.map_cons, List.filter_cons]
    cases hwants : mode.wants (decide point).status.isKilled with
    | false => simp [MutationResult.isKilled, hwants]
    | true =>
      cases hlocation : point.location with
      | none => simp [MutationResult.isKilled, hwants, hlocation]
      | some l => simp [MutationResult.isKilled, hwants, hlocation]

end

end Execution

namespace Pipeline

section

variable {p : Pipeline} {mode : EditorMode} {w later : Workspace} {libraries : List ObjectFile}
  {tests : List Test} {points : List Point}

/-- **Running mutants** comes to all results, and tells about them. -/
theorem run_runMutants_of_mode (w : Workspace) (tests : List Test) (points : List Point)
    (hmode : p.reporter = mode.reporter) (image : Image) :
    ∃ log, (p.runMutants image tests points).run.run w =
      (.ok (points.map fun point => ⟨point, p.verdict image tests point⟩),
        { w with
          log
          written := (points.flatMap (Execution.told (p.verdict image tests) mode)).reverse ++
            w.written }) := by
  have hready : (fun (_ : List Point) (_ : List String) => True) points w.written := trivial
  have hforeseen : Task.Foreseen
      (Execution.task (fun point => .ok (p.verdict image tests point)) mode.reporter)
      (fun point => { outputs := [⟨point, p.verdict image tests point⟩] }) fun _ _ => True :=
    Task.foreseen_of_forall (Execution.fst_task_reporter _ mode)
  obtain ⟨log, hexecute, -⟩ := Pool.execute_of_clean "Running mutants" hforeseen
    p.mutantWorkers_ne_zero w.log hready fun _ _ => Step.clean_outputs _
  refine ⟨log, ?_⟩
  rw [run_runMutants, hmode, decide_eq_verdict, hexecute, Execution.foldl_task_reporter,
    ← List.map_eq_flatMap]
  rfl

/-- **What the results of a run tell** are their lines, in their order. -/
theorem written_of_results (hmode : p.reporter = mode.reporter)
    (hnormal : p.configuration.dryRun = false) (hsorted : points.Pairwise fun a b => a.id ≤ b.id)
    {results : List MutationResult}
    (h : (p.results libraries tests points).run.run w = (.ok results, later)) :
    (∀ r ∈ results, r.result.status ≠ .invalid) ∧
      later.written = (Editor.lines mode results).reverse ++ w.written ∧
      ∃ image, results = points.map fun point => ⟨point, p.verdict image tests point⟩ := by
  rw [Pipeline.results] at h
  cases points with
  | nil =>
    obtain ⟨hresults, rfl⟩ := Prod.mk.inj h
    obtain rfl := Except.ok.inj hresults
    exact ⟨fun r hr => absurd hr List.not_mem_nil, rfl, {}, rfl⟩
  | cons point points =>
    simp only [List.isEmpty_cons, hnormal, Bool.false_eq_true, if_false] at h
    obtain ⟨_, applied, happly, h⟩ := Run.bind_run_eq_ok_iff.mp h
    obtain ⟨image, built, hbuild, h⟩ := Run.bind_run_eq_ok_iff.mp h
    obtain ⟨found, executed, hfound, h⟩ := Run.bind_run_eq_ok_iff.mp h
    obtain ⟨-, hvalid, rfl⟩ := checked_eq_ok_iff.mp ((comes_check _ found).eq_ok h)
    obtain ⟨log, hrun⟩ := run_runMutants_of_mode built tests (point :: points) hmode image
    obtain ⟨hok, rfl⟩ := Prod.mk.inj (hfound.symm.trans hrun)
    obtain rfl := Except.ok.inj hok
    rw [sortResults_map hsorted]
    refine ⟨hvalid, ?_, image, rfl⟩
    -- The other parts are silent, and where all results are valid, all of them are told about.
    have hchecked := (silent_check (point :: points) _).written_of_run h
    have hbuilt := (p.silent_buildMutants libraries).written_of_run hbuild
    have happlied := (p.silent_applyMutations (point :: points)).written_of_run happly
    rw [hchecked, hbuilt, happlied, Execution.flatMap_told mode fun other hother =>
      hvalid _ (List.mem_map_of_mem hother)]

/-! ## Whole runs -/

/-- **What a run tells** are the lines of its results, in their order. No result is invalid. -/
theorem written_of_run (hmode : p.reporter = mode.reporter)
    (hnormal : p.configuration.dryRun = false) {result : PipelineResult}
    (hrun : p.run w = (.ok result, later)) :
    (∀ r ∈ result.results, r.result.status ≠ .invalid) ∧
      later.written = (Editor.lines mode result.results).reverse ++ w.written ∧
      ∃ image, result.results =
        result.points.map fun point => ⟨point, p.verdict image result.tests point⟩ := by
  have hstages : p.stages.run.run w = (.ok result, later) := hrun
  rw [stages_eq] at hstages
  obtain ⟨s, surveyed, hsurvey, hconclude⟩ := Run.bind_run_eq_ok_iff.mp hstages
  obtain ⟨_, said, hsay, hconclude⟩ := Run.bind_run_eq_ok_iff.mp hconclude
  obtain ⟨results, decided, hresults, hconclude⟩ := Run.bind_run_eq_ok_iff.mp hconclude
  obtain ⟨hresult, rfl⟩ := Prod.mk.inj hconclude
  obtain rfl := Except.ok.inj hresult
  have hsorted : (Point.sortById s.kept).Pairwise fun a b => a.id ≤ b.id :=
    pairwise_mergeSort Point.id s.kept
  obtain ⟨hvalid, hwritten, himage⟩ := written_of_results hmode hnormal hsorted hresults
  have hsaid := (Run.silent_say ..).written_of_run hsay
  have hsurveyed := p.silent_survey.written_of_run hsurvey
  exact ⟨hvalid, by rw [hwritten, hsaid, hsurveyed], himage⟩

end

/-- The example with locations: all of it stands in one place. -/
def located : Workspace :=
  let place : Instruction → Instruction := fun i =>
    { i with location := some ⟨"arithmetic.c", 7, 5⟩ }
  let functions := Example.arithmetic.functions.map fun f => { f with body := f.body.map place }
  { program := .ofModules [{ Example.arithmetic with functions }] }

end Pipeline

end MutationLab
