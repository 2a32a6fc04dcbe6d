import MutationLab.Proofs.Pipeline.Outcome
import MutationLab.Proofs.Testing

/-! # Results stand beside their points

A run only compares the number of results with that of the points, and sorts both by ids that need
not be distinct. Still the results of a run stand in the order of its points, one for each
(`Pipeline.results_of_normal`): what the workers put out is a part of one result for every point in
their order (`Pipeline.sublist_of_runMutants`), the count says that nothing is left out, and sorting
does not move what ascends already. A dry run makes the same stages up to there
(`Pipeline.survey_dry`), so it foresees the points of a run (`Pipeline.dry_run_foresees`). This
holds for every workspace, with or without a cache, and whatever the sandbox, the clock, the
reporter and the pools are. -/

namespace MutationLab

namespace Pipeline

/-! ## Before any mutant is made -/

/-- What a run has found out before any mutant is made. -/
structure Survey where
  tests : List Test
  libraries : List ObjectFile
  /-- The points that the filters leave, in no particular order. -/
  kept : List Point

/-- The stages up to the points that the filters leave. -/
def survey (p : Pipeline) : Run Survey := do
  let probes := (← get).program.probes
  let instrumented ← p.compileAll "Compiling instrumented code" (some probes)
  let libraries ← Run.single "Loading dynamic libraries" fun w =>
    readLibraries w.files w.program.libraries
  let tests ← Run.single "Searching tests" fun w => p.framework.find w.program
  Run.say .info s!"Found {tests.length} tests with {p.framework.name}"
  let found ← p.findPoints probes instrumented libraries tests
  let kept ← p.dropPoints p.filters.points found
  return { tests, libraries, kept }

/-- The stages behind them. -/
def conclude (p : Pipeline) (s : Survey) : Run PipelineResult := do
  let points := Point.sortById s.kept
  Run.say .info s!"{points.length} mutants survived filtering"
  let results ← p.results s.libraries s.tests points
  return { tests := s.tests, results, points }

/-- A run makes these stages. -/
theorem stages_eq (p : Pipeline) : p.stages = p.survey >>= p.conclude := by
  simp only [stages, survey, conclude, bind_assoc, pure_bind]

/-- The same run, but dry. -/
def dry (p : Pipeline) : Pipeline :=
  { p with configuration := { p.configuration with dryRun := true } }

/-- A dry run drops the same functions. -/
theorem filterFunctions_dry (p : Pipeline) (program : Program) :
    p.dry.filterFunctions program = p.filterFunctions program := by
  funext filters cs
  induction filters generalizing cs with
  | nil => rfl
  | cons filter filters ih =>
    rw [filterFunctions, filterFunctions]
    exact congrArg _ (funext ih)

/-- A dry run finds the same points. -/
theorem findPoints_dry (p : Pipeline) : p.dry.findPoints = p.findPoints := by
  funext probes instrumented libraries tests
  rw [findPoints, findPoints]
  simp only [filterFunctions_dry]
  rfl

/-- A dry run drops the same points. -/
theorem dropPoints_dry (p : Pipeline) : p.dry.dropPoints = p.dropPoints := by
  funext filters points
  induction filters generalizing points with
  | nil => rfl
  | cons filter filters ih =>
    rw [dropPoints, dropPoints]
    exact congrArg _ (funext ih)

/-- A dry run finds out the same. -/
theorem survey_dry (p : Pipeline) : p.dry.survey = p.survey := by
  rw [survey, survey, findPoints_dry, dropPoints_dry]
  rfl

section

variable {p : Pipeline} {w later : Workspace} {libraries : List ObjectFile} {tests : List Test}
  {points : List Point}

/-! ## Results of mutants -/

/-- The outputs of all steps are a part of one result for every point. -/
theorem sublist_flatMap_runStep (image : Image) (tests : List Test) (points : List Point) :
    (points.flatMap fun point => (p.runStep image tests point).outputs).Sublist
      (points.map fun point => ⟨point, p.verdict image tests point⟩) := by
  induction points with
  | nil => exact List.Sublist.refl _
  | cons point points ih =>
    have hone : (p.runStep image tests point).outputs.Sublist
        [⟨point, p.verdict image tests point⟩] := by
      by_cases hreported : p.isReported point (p.verdict image tests point) = true
      · rw [runStep_of_isReported hreported]
      · rw [outputs_runStep_of_not_isReported hreported]
        exact List.nil_sublist _
    rw [List.flatMap_cons, List.map_cons]
    exact hone.append ih

/-- **What the workers put out** is a part of one result for every point, in their order. -/
theorem sublist_of_runMutants {image : Image} {found : List MutationResult}
    (h : (p.runMutants image tests points).run.run w = (.ok found, later)) :
    found.Sublist (points.map fun point => ⟨point, p.verdict image tests point⟩) := by
  rw [run_runMutants] at h
  rcases hexecute : Pool.execute "Running mutants" p.mutantWorkers
    (Execution.task (p.decide image tests) p.reporter) points w.log w.written with
    ⟨outcome, log, written⟩
  rw [hexecute] at h
  obtain rfl := mapError_eq_ok_iff.mp (Prod.mk.inj h).1
  refine List.Sublist.trans ?_ (sublist_flatMap_runStep image tests points)
  exact Pool.sublist_of_execute "Running mutants" (foreseen_runStep image tests)
    (fun {_ _ _} _ => trivial) p.mutantWorkers_ne_zero trivial (congrArg Prod.fst hexecute)

/-- Results in the order of their points do not move when they are sorted. -/
theorem sortResults_map (hsorted : points.Pairwise fun a b => a.id ≤ b.id)
    (result : Point → ExecutionResult) :
    sortResults (points.map fun point => ⟨point, result point⟩) =
      points.map fun point => ⟨point, result point⟩ :=
  mergeSort_eq_self (fun r : MutationResult => r.point.id) (List.pairwise_map.mpr hsorted)

/-- **The results of a run stand in the order of its points**, one for each, and none is
invalid. -/
theorem results_of_normal (hnormal : p.configuration.dryRun = false)
    (hsorted : points.Pairwise fun a b => a.id ≤ b.id) {results : List MutationResult}
    (h : (p.results libraries tests points).run.run w = (.ok results, later)) :
    (∀ r ∈ results, r.result.status ≠ .invalid) ∧
      ∃ image, results = points.map fun point => ⟨point, p.verdict image tests point⟩ := by
  rw [Pipeline.results] at h
  cases points with
  | nil =>
    obtain ⟨hresults, -⟩ := Prod.mk.inj h
    obtain rfl := Except.ok.inj hresults
    exact ⟨fun r hr => absurd hr List.not_mem_nil, {}, rfl⟩
  | cons point points =>
    simp only [List.isEmpty_cons, hnormal, Bool.false_eq_true, if_false] at h
    obtain ⟨-, applied, -, h⟩ := Run.bind_run_eq_ok_iff.mp h
    obtain ⟨image, built, -, h⟩ := Run.bind_run_eq_ok_iff.mp h
    obtain ⟨found, executed, hfound, h⟩ := Run.bind_run_eq_ok_iff.mp h
    obtain ⟨hlength, hvalid, rfl⟩ := checked_eq_ok_iff.mp ((comes_check _ found).eq_ok h)
    -- As many as there are points, so nothing has been left out.
    have hfound' := (sublist_of_runMutants hfound).eq_of_length (by rw [hlength, List.length_map])
    rw [hfound'] at hvalid ⊢
    rw [sortResults_map hsorted]
    exact ⟨hvalid, image, rfl⟩

/-- With the built-in framework no mutant that is run has the status of a dry run. -/
theorem status_verdict_ne_dryRun {finder : Mangling}
    (hframework : p.framework = Testing.simple finder) (image : Image) (tests : List Test)
    (point : Point) :
    (p.verdict image tests point).status ≠ .dryRun := by
  have hdry : Status.dryRun ≠ .timedout := nofun
  refine status_verdict_ne (fun _ => nofun) (fun _ _ _ => nofun) fun id _ test _ start => ?_
  rw [hframework]
  exact Sandbox.status_run_ne hdry (fun watchdog => Testing.status_run_ne_dryRun image test _) _ _

/-- **The results of a dry run stand in the order of its points**, one for each. -/
theorem comes_results_of_dry (hdry : p.configuration.dryRun = true)
    (hsorted : points.Pairwise fun a b => a.id ≤ b.id) :
    (p.results libraries tests points).Comes w (.ok (points.map fun point => ⟨point, .dryRun⟩))
      (w.Leaves w.program 0) := by
  have hchecked : checked points (points.map fun point => ⟨point, .dryRun⟩) =
      .ok (points.map fun point => ⟨point, .dryRun⟩) := by
    refine checked_eq_ok_iff.mpr ⟨List.length_map _, fun r hr => ?_, sortResults_map hsorted _⟩
    obtain ⟨point, -, rfl⟩ := List.mem_map.mp hr
    exact nofun
  rw [results]
  cases points with
  | nil => exact Run.comes_pure []
  | cons point points =>
    simp only [List.isEmpty_cons, hdry, Bool.false_eq_true, if_false, if_true]
    refine (comes_listing (point :: points)).andThen fun between hbetween => ?_
    have hcheck := comes_check (w := between) (point :: points)
      ((point :: points).map fun point => ⟨point, .dryRun⟩)
    rw [hchecked] at hcheck
    exact hcheck.imp fun _ => hbetween.same

end

/-! ## Whole runs -/

/-- **A dry run foresees a run.** Take any program, configuration, filters, operators, cache,
sandbox, clock and reporter, and the built-in framework. If a run that is not dry has a result, then
its results are those of its points, in the same order, one for each, and none is invalid or that of
a dry run. The dry run on the same workspace has a result too, with the same tests, the same points
in the same order, and for each of them the result of a dry run. -/
theorem dry_run_foresees {p : Pipeline} {finder : Mangling}
    (hframework : p.framework = Testing.simple finder) (hnormal : p.configuration.dryRun = false)
    {w : Workspace} {result : PipelineResult} (hrun : (p.run w).1 = .ok result) :
    result.results.map MutationResult.point = result.points ∧
      (∀ r ∈ result.results, r.result.status ≠ .invalid ∧ r.result.status ≠ .dryRun) ∧
      (p.dry.run w).1 =
        .ok { result with results := result.points.map fun point => ⟨point, .dryRun⟩ } := by
  have hstages : p.stages.run.run w = (.ok result, (p.run w).2) := Prod.ext hrun rfl
  rw [stages_eq] at hstages
  obtain ⟨s, surveyed, hsurvey, hconclude⟩ := Run.bind_run_eq_ok_iff.mp hstages
  obtain ⟨-, said, -, hconclude⟩ := Run.bind_run_eq_ok_iff.mp hconclude
  obtain ⟨results, decided, hresults, hconclude⟩ := Run.bind_run_eq_ok_iff.mp hconclude
  obtain rfl := Except.ok.inj (Prod.mk.inj hconclude).1
  have hsorted : (Point.sortById s.kept).Pairwise fun a b => a.id ≤ b.id :=
    pairwise_mergeSort Point.id s.kept
  refine ⟨?_, ?_, ?_⟩
  · obtain ⟨-, image, rfl⟩ := results_of_normal hnormal hsorted hresults
    rw [List.map_map]
    exact List.map_id' _
  · obtain ⟨hvalid, image, rfl⟩ := results_of_normal hnormal hsorted hresults
    refine fun r hr => ⟨hvalid r hr, ?_⟩
    obtain ⟨point, -, rfl⟩ := List.mem_map.mp hr
    exact status_verdict_ne_dryRun hframework image s.tests point
  · let listed : List MutationResult :=
      (Point.sortById s.kept).map fun point => ⟨point, .dryRun⟩
    have hdry : p.dry.stages.Comes w (.ok ⟨s.tests, listed, Point.sortById s.kept⟩)
        fun _ => True := by
      have hsame : p.survey.Comes w (.ok s) fun _ => True := ⟨surveyed, hsurvey, trivial⟩
      rw [stages_eq, survey_dry]
      refine hsame.andThen fun surveyed _ => ?_
      refine (Run.comes_say (by decide) _).andThen fun said _ => ?_
      refine (comes_results_of_dry rfl hsorted).andThen fun decided _ => ?_
      exact (Run.comes_pure _).imp fun _ _ => trivial
    obtain ⟨later, hlater, -⟩ := hdry
    exact congrArg Prod.fst hlater

/-- `dry_run_foresees` at the example, whose only mutant is killed. -/
theorem dry_run_foresees_example :
    ∃ result, (Example.pipeline.run Example.workspace).1 = .ok result ∧
      result.results.map (fun r => r.result.status) = [.failed] ∧
      result.results.map MutationResult.point = result.points ∧
      (Example.pipeline.dry.run Example.workspace).1 =
        .ok { result with results := result.points.map fun point => ⟨point, .dryRun⟩ } := by
  have hstatus : (Example.pipeline.run Example.workspace).1.toOption.map
      (fun result : PipelineResult => result.results.map fun r : MutationResult =>
        r.result.status) = some [.failed] := by
    decide +kernel
  obtain ⟨result, hrun, hresults⟩ := Option.map_eq_some_iff.mp hstatus
  have hok := toOption_eq_some_iff.mp hrun
  obtain ⟨haligned, -, hdry⟩ := dry_run_foresees (p := Example.pipeline) rfl rfl hok
  exact ⟨result, hok, hresults, haligned, hdry⟩

end Pipeline

end MutationLab
