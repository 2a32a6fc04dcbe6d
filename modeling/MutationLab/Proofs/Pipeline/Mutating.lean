import MutationLab.Proofs.Deciding
import MutationLab.Proofs.Mutants.Installing
import MutationLab.Proofs.Pipeline.Searching

/-! # From points to their results

What the stages behind the points of a program come to. Putting the mutants into the modules goes
through where derived names are fresh (`Pipeline.comes_applyMutations_of_fresh`). Where they are
not, the count of the copied functions notices it (`Pipeline.comes_applyMutations_of_not_fresh`).
What decides about each mutant does not depend on the others, nor on the workers that run them
(`Pipeline.comes_results`). -/

namespace MutationLab

namespace Pipeline

/-! ## From the points to their results -/

/-- Something decides about every mutant: its running times are measured. -/
theorem exists_decide_eq (p : Pipeline) (image : Image) (tests : List Test) (point : Point) :
    ∃ result, p.decide image tests point = .ok result := by
  obtain ⟨result, stop, hresult⟩ := (Execution.measured_runMutant p.framework image p.sandbox
    (p.mutantTiming point) point).exists_decide_eq tests point
  exact ⟨result, congrArg Prod.fst hresult⟩

/-- What decides about a mutant. -/
def verdict (p : Pipeline) (image : Image) (tests : List Test) (point : Point) : ExecutionResult :=
  (p.decide image tests point).toOption.get <| by
    obtain ⟨result, hresult⟩ := p.exists_decide_eq image tests point
    rw [hresult]
    rfl

/-- It is there without a panic. -/
theorem decide_eq_verdict (p : Pipeline) (image : Image) (tests : List Test) :
    p.decide image tests = fun point => .ok (p.verdict image tests point) := by
  funext point
  obtain ⟨result, hresult⟩ := p.exists_decide_eq image tests point
  have hverdict : p.verdict image tests point = result :=
    Option.get_of_eq_some _ (by rw [hresult]; rfl)
  rw [hresult, hverdict]

/-- It has the status of a run of one of the tests of the mutant, or it is invalid because there is
no test or an unknown one. -/
theorem status_verdict_ne {p : Pipeline} {image : Image} {tests : List Test} {point : Point}
    {status : Status} (hnone : point.tests = [] → status ≠ .invalid)
    (hunknown : ∀ i ∈ point.tests, tests[i]? = none → status ≠ .invalid)
    (hknown : ∀ i ∈ point.tests, ∀ test, tests[i]? = some test → ∀ start,
      (Execution.runMutant p.framework image p.sandbox (p.mutantTiming point) point test
        start).1.status ≠ status) :
    (p.verdict image tests point).status ≠ status := by
  have hresult : p.decide image tests point = .ok (p.verdict image tests point) :=
    congrFun (p.decide_eq_verdict image tests) point
  exact Execution.status_decide_ne hnone hunknown hknown (Prod.ext hresult rfl)

/-- Whether a mutant is reported without a panic. -/
def isReported (p : Pipeline) (point : Point) (result : ExecutionResult) : Bool :=
  result.status = .invalid || (p.reporter point result.status.isKilled).isOk

/-- What decides about all mutants, if all are reported. -/
def verdicts (p : Pipeline) (image : Image) (tests : List Test) (points : List Point) :
    Except Failure (List MutationResult) :=
  if points.all fun point => p.isReported point (p.verdict image tests point) then
    .ok (points.map fun point => ⟨point, p.verdict image tests point⟩)
  else .error .noResults

/-- The image of the program with all mutants. -/
def mutantImage (p : Pipeline) (ms : List Module) (extra : List ObjectFile) (points : List Point) :
    Except Failure Image := do
  if FreshNames ms points then
    let objects ← p.compiled "Compiling original code" none (withMutants ms points)
    (Image.link (objects ++ extra)).mapError .link
  else .error (.incomplete "Cloning functions for mutation")

/-- The results of points, in no particular order. -/
def unsorted (p : Pipeline) (ms : List Module) (extra : List ObjectFile) (tests : List Test)
    (points : List Point) : Except Failure (List MutationResult) :=
  if p.configuration.dryRun then .ok (points.map fun point => ⟨point, .dryRun⟩)
  else do
    let image ← p.mutantImage ms extra points
    p.verdicts image tests points

/-- Results in the order of the ids of their points, if none is inconsistent. -/
def checked (points : List Point) (found : List MutationResult) :
    Except Failure (List MutationResult) :=
  match checkResults points (sortResults found) with
  | .error e => .error e.failure
  | .ok () => .ok (sortResults found)

/-- The results of points, in the order of their ids. -/
def decided (p : Pipeline) (ms : List Module) (extra : List ObjectFile) (tests : List Test)
    (points : List Point) : Except Failure (List MutationResult) :=
  if points.isEmpty then .ok []
  else do
    let results ← p.unsorted ms extra tests points
    checked points results

/-! ## Putting the mutants in -/

/-- What a step of applying mutations leaves. -/
def Advances (ms : List Module) (objects : List ObjectFile) (points applied : List Point)
    (stages : List Stage) (earlier later : Workspace) : Prop :=
  earlier.Leaves later.program 0 later ∧ later.program.Standing ms objects points applied stages

section

variable {p : Pipeline} {w : Workspace} {ms : List Module} {objects : List ObjectFile}
  {points applied : List Point} {stages : List Stage}

/-- One step behind another. -/
theorem Advances.trans {first second third : Workspace} {applied' : List Point}
    {stages' : List Stage} (h : Advances ms objects points applied stages first second)
    (h' : Advances ms objects points applied' stages' second third) :
    Advances ms objects points applied' stages' first third :=
  ⟨h.1.trans h'.1, h'.2⟩

/-- What leaves the program as it is does not matter. -/
theorem Advances.same {first second third : Workspace}
    (h : Advances ms objects points applied stages first second)
    (h' : second.Leaves second.program 0 third) :
    Advances ms objects points applied stages first third := by
  have hprogram := h'.program_eq
  refine ⟨?_, hprogram ▸ h.2⟩
  rw [hprogram]
  exact h.1.same h'

/-- Registering is one stage, with a single worker. -/
theorem run_registerPoints (points : List Point) (w : Workspace) :
    (registerPoints points).run.run w =
      match Pool.single "Prepare mutations" (fun log => (registerAll w.program points, log))
        w.log with
      | ((outcome, program), log) =>
        (outcome.mapError .application, { w with log, program }) := rfl

/-- All points can be registered. -/
theorem comes_registerPoints (h : w.program.Standing ms objects [] [] [.registered])
    (hplaced : ∀ point ∈ points, point.module < ms.length) :
    (registerPoints points).Comes w (.ok ()) (Advances ms objects points [] [.registered] w) := by
  obtain ⟨after, hregister, hstanding⟩ := h.registerAll hplaced
  let label := "Prepare mutations"
  let log := ((w.log.debug label).progress label 1 1).debug (Pool.finished label)
  refine ⟨{ w with log, program := after }, ?_, ⟨rfl, rfl, ?_⟩, hstanding⟩
  · rw [run_registerPoints, hregister]
    rfl
  · simp [log]

/-- A step that goes through in every module goes through in the program. -/
theorem comes_step (p : Pipeline) (label : String) (work : Subject → Step β × Subject)
    {stages' : List Stage} (h : w.program.Standing ms objects points applied stages)
    (hwork : ∀ {id m s}, ms[id]? = some m →
      Subject.Standing id m (pointsIn points id) (pointsIn applied id) stages s →
      (work s).1.Clean ∧
        Subject.Standing id m (pointsIn points id) (pointsIn applied id) stages' (work s).2) :
    (Run.stageOnSubjects label p.workers work).Comes w
      (.ok (w.program.subjects.flatMap fun s => (work s).1.outputs))
      (Advances ms objects points applied stages' w) := by
  have hclean : ∀ s ∈ w.program.subjects, (work s).1.Clean := by
    intro s hs
    obtain ⟨id, hid⟩ := List.mem_iff_getElem?.mp hs
    obtain ⟨m, hm, hstanding⟩ := h.exists_module hid
    exact (hwork hm hstanding).1
  refine (Run.comes_stageOnSubjects label p.workers_ne_zero hclean).imp fun later hlater => ?_
  have hprogram := hlater.program_eq
  refine ⟨hprogram ▸ hlater, ?_⟩
  rw [hprogram]
  exact h.mapSubjects fun hm hstanding => (hwork hm hstanding).2

/-- Where all modules stand at one stage, the check for it is passed. -/
theorem comes_ensureStage (label : String) {stage : Stage}
    (h : w.program.Standing ms objects points applied [stage]) :
    (Run.ensureStage label stage).Comes w (.ok ()) (w.Leaves w.program 0) := by
  refine Run.comes_ensureStage label fun s hs hpending => ?_
  obtain ⟨id, hid⟩ := List.mem_iff_getElem?.mp hs
  obtain ⟨m, hm, hstanding⟩ := h.exists_module hid
  exact List.mem_singleton.mp (hstanding.stage_of_pending hpending)

/-- Applying is one stage, with a single worker. -/
theorem run_applyPoints (points : List Point) (w : Workspace) :
    (applyPoints points).run.run w =
      match Pool.execute "Applying mutations" 1 applyTask points w.log w.program with
      | (outputs, log, program) =>
        (outputs.mapError .panicked, { w with log, program }) := rfl

/-- All points can be applied. -/
theorem comes_applyPoints (h : w.program.Standing ms objects points [] [.redirected, .applied])
    (hnodup : points.Nodup) (hsited : ∀ point ∈ points, point.Sited ms) :
    (applyPoints points).Comes w (.ok points)
      (Advances ms objects points points [.redirected, .applied] w) := by
  have hforeseen : Task.Foreseen applyTask (fun point => { outputs := [point] })
      (Program.Standing.Applying ms objects points) :=
    Program.Standing.foreseen_applyTask hnodup hsited
  have hready : Program.Standing.Applying ms objects points points w.program := ⟨[], rfl, h⟩
  obtain ⟨log, hexecute, herrors⟩ := Pool.execute_of_clean "Applying mutations" hforeseen
    Nat.one_ne_zero w.log hready fun _ _ => Step.clean_outputs _
  obtain ⟨applied, happlied, hstanding⟩ := hforeseen.ready_foldl hready
  rw [List.append_nil] at happlied
  subst happlied
  let program := points.foldl (fun program point => (applyTask point program).2) w.program
  refine ⟨{ w with log, program }, ?_, ⟨rfl, rfl, herrors⟩, hstanding⟩
  · rw [run_applyPoints, hexecute, ← List.map_eq_flatMap, List.map_id']
    rfl

/-- **Applying mutations** goes through if all derived names are fresh. -/
theorem comes_applyMutations_of_fresh (hprogram : w.program.subjects = Program.numbered 0 ms)
    (hnames : ∀ m ∈ ms, m.functionNames.Nodup) (hsited : ∀ point ∈ points, point.Sited ms)
    (hfresh : FreshNames ms points) :
    (p.applyMutations points).Comes w (.ok ())
      (Advances ms w.program.objects points points [.redirected, .applied] w) := by
  have hplaced : ∀ point ∈ points, point.module < ms.length := fun point hpoint =>
    (hsited point hpoint).lt
  have hstart : w.program.Standing ms w.program.objects [] [] [.registered] :=
    Program.Standing.numbered hprogram
  rw [applyMutations]
  refine (comes_registerPoints hstart hplaced).andThen fun registered hregistered => ?_
  dsimp only
  -- Every mutated function is copied, and named once.
  have hclone := p.comes_step "Cloning functions for mutation" cloneStep hregistered.2
    fun hm hs => hs.cloneStep (hfresh.fresh hm)
  refine hclone.andThen fun cloned hcloned => ?_
  refine (Run.comes_ensureCount _ ?_).andThen fun counted hcounted => ?_
  · rw [hregistered.2.flatMap_cloneStep_of_fresh hnames hfresh, length_mutatedKeys hplaced]
  have hcounted' := hcloned.same hcounted
  have hexcise := p.comes_step "Removing original functions" exciseStep hcounted'.2
    fun _ hs => hs.exciseStep
  refine hexcise.andThen fun excised hexcised => ?_
  refine (comes_ensureStage _ hexcised.2).andThen fun staged hstaged => ?_
  have hstaged' := hexcised.same hstaged
  have hredirect := p.comes_step "Redirect mutated functions" redirectStep hstaged'.2
    fun _ hs => hs.redirectStep
  refine hredirect.andThen fun redirected hredirected => ?_
  refine (comes_ensureStage _ hredirected.2).andThen fun ready hready => ?_
  have hready' := hredirected.same hready
  have hsubset : [Stage.redirected] ⊆ [.redirected, .applied] := List.subset_append_left _ _
  have happly := comes_applyPoints (hready'.2.mono hsubset) (hfresh.nodup hplaced) hsited
  refine happly.andThen fun applied happlied => ?_
  refine (Run.comes_ensureCount _ rfl).imp fun later hlater => ?_
  exact hregistered.trans (hcounted'.trans (hstaged'.trans (hready'.trans (happlied.same hlater))))

/-- If some derived name is not fresh, some mutated function is not copied. -/
theorem comes_applyMutations_of_not_fresh
    (hprogram : w.program.subjects = Program.numbered 0 ms)
    (hnames : ∀ m ∈ ms, m.functionNames.Nodup)
    (hplaced : ∀ point ∈ points, point.module < ms.length)
    (hfresh : ¬ FreshNames ms points) {After : Workspace → Prop} :
    (p.applyMutations points).Comes w (.error (.incomplete "Cloning functions for mutation"))
      After := by
  have hstart : w.program.Standing ms w.program.objects [] [] [.registered] :=
    Program.Standing.numbered hprogram
  rw [applyMutations]
  refine (comes_registerPoints hstart hplaced).andThen fun registered hregistered => ?_
  have hshort := hregistered.2.length_flatMap_cloneStep_lt hnames hfresh
  rw [length_mutatedKeys hplaced] at hshort
  refine Run.comes_stageOnSubjects_of_short _ p.workers_ne_zero (fun s _ panic => ?_) hshort
  rw [cloneStep]
  rcases s.clone with ⟨answer | answer, t⟩ <;> simp [stepOf]

/-! ## Building and running the mutants -/

/-- **Building** comes to the image of the modules as they are, unless these do not compile or do
not link. -/
theorem comes_buildMutants (hcache : p.toolchain.cache = none) (libraries : List ObjectFile)
    (hms : w.program.subjects.map (fun s => (s.module, s.id)) = ms.zipIdx) :
    (p.buildMutants libraries).Comes w
      (do
        let objects ← p.compiled "Compiling original code" none ms
        (Image.link (objects ++ (libraries ++ w.program.objects))).mapError .link)
      (w.Leaves w.program 0) := by
  refine (comes_compileAll hcache _ none hms).bind fun compiled _ between hbetween => ?_
  have hlink := Run.comes_single (w := between) "Linking mutants" fun w =>
    (Image.link (compiled ++ libraries ++ w.program.objects), [])
  refine hlink.andThen fun linked hlinked => ?_
  dsimp only
  rw [hbetween.program_eq, List.append_assoc]
  cases Image.link (compiled ++ (libraries ++ w.program.objects)) with
  | error e => exact Run.comes_throw _
  | ok image => exact (Run.comes_pure image).imp fun _ hlater => hbetween.same (hlinked.same hlater)

/-- What running a mutant puts out, whatever has been written before. -/
def runStep (p : Pipeline) (image : Image) (tests : List Test) (point : Point) :
    Step MutationResult :=
  (Execution.task (p.decide image tests) p.reporter point []).1

theorem foreseen_runStep (image : Image) (tests : List Test) :
    Task.Foreseen (Execution.task (p.decide image tests) p.reporter) (p.runStep image tests)
      fun _ _ => True := by
  refine Task.foreseen_of_forall fun point written => ?_
  rw [runStep, decide_eq_verdict, Execution.task, Execution.task]
  dsimp only
  split
  · rfl
  · cases p.reporter point (p.verdict image tests point).status.isKilled <;> rfl

/-- A mutant that is reported has its result. -/
theorem runStep_of_isReported {image : Image} {tests : List Test} {point : Point}
    (h : p.isReported point (p.verdict image tests point) = true) :
    p.runStep image tests point = { outputs := [⟨point, p.verdict image tests point⟩] } := by
  rw [isReported, Bool.or_eq_true, decide_eq_true_eq] at h
  rw [runStep, decide_eq_verdict, Execution.task]
  dsimp only
  split
  · rfl
  · rename_i hvalid
    obtain h | h := h
    · exact absurd h hvalid
    · cases hreport : p.reporter point (p.verdict image tests point).status.isKilled with
      | error panic =>
        rw [hreport] at h
        cases h
      | ok lines => rfl

/-- A mutant that is not reported has no result. -/
theorem outputs_runStep_of_not_isReported {image : Image} {tests : List Test} {point : Point}
    (h : ¬ p.isReported point (p.verdict image tests point) = true) :
    (p.runStep image tests point).outputs = [] := by
  rw [isReported, Bool.or_eq_true, decide_eq_true_eq, not_or] at h
  rw [runStep, decide_eq_verdict, Execution.task]
  dsimp only
  rw [if_neg h.1]
  cases hreport : p.reporter point (p.verdict image tests point).status.isKilled with
  | error panic => rfl
  | ok lines =>
    rw [hreport] at h
    exact absurd rfl h.2

/-- The run of a stage with mutants. -/
theorem run_runMutants (image : Image) (tests : List Test) (points : List Point) (w : Workspace) :
    (p.runMutants image tests points).run.run w =
      match Pool.execute "Running mutants" p.mutantWorkers
        (Execution.task (p.decide image tests) p.reporter) points w.log w.written with
      | (results, log, written) => (results.mapError .panicked, { w with log, written }) := rfl

/-- **Running mutants** comes to the results of all, if all are reported. -/
theorem comes_runMutants {image : Image} {tests : List Test}
    (h : ∀ point ∈ points, p.isReported point (p.verdict image tests point) = true) :
    (p.runMutants image tests points).Comes w
      (.ok (points.map fun point => ⟨point, p.verdict image tests point⟩))
      (w.Leaves w.program 0) := by
  have hclean : ∀ point ∈ points, (p.runStep image tests point).Clean := by
    intro point hpoint
    rw [runStep_of_isReported (h point hpoint)]
    exact Step.clean_outputs _
  have hready : (fun (_ : List Point) (_ : List String) => True) points w.written := trivial
  obtain ⟨log, hexecute, herrors⟩ := Pool.execute_of_clean "Running mutants"
    (foreseen_runStep image tests) p.mutantWorkers_ne_zero w.log hready hclean
  rw [List.flatMap_congr fun point hpoint =>
    congrArg Step.outputs (runStep_of_isReported (h point hpoint)),
    ← List.map_eq_flatMap] at hexecute
  let written := points.foldl (fun written point =>
    (Execution.task (p.decide image tests) p.reporter point written).2) w.written
  refine ⟨{ w with log, written }, ?_, rfl, rfl, herrors⟩
  rw [run_runMutants, hexecute]
  rfl

/-- If a mutant is not reported, some point has no result in the end. -/
theorem comes_runMutants_of_not_isReported {image : Image} {tests : List Test}
    {check : List MutationResult → Run α} {After : Workspace → Prop}
    (h : ¬ ∀ point ∈ points, p.isReported point (p.verdict image tests point) = true)
    (hcheck : ∀ found w, found.length ≠ points.length →
      (check found).Comes w (.error .noResults) After) :
    (p.runMutants image tests points >>= check).Comes w (.error .noResults) After := by
  have hshort : (points.flatMap fun point => (p.runStep image tests point).outputs).length <
      points.length := by
    simp only [not_forall, exists_prop] at h
    obtain ⟨point, hpoint, hsilent⟩ := h
    refine Pool.length_flatMap_outputs_lt (fun other _ => ?_) hpoint
      (outputs_runStep_of_not_isReported hsilent)
    by_cases hother : p.isReported other (p.verdict image tests other) = true
    · rw [runStep_of_isReported hother]
      exact Nat.le_refl 1
    · rw [outputs_runStep_of_not_isReported hother]
      exact Nat.zero_le 1
  rcases hexecute : Pool.execute "Running mutants" p.mutantWorkers
    (Execution.task (p.decide image tests) p.reporter) points w.log w.written with
    ⟨outcome | found, log, written⟩
  · -- The only worker was torn down.
    have hpanic : (p.runMutants image tests points).Comes w (.error .noResults) After := by
      refine ⟨.panicked outcome, { w with log, written }, ?_, rfl⟩
      rw [run_runMutants, hexecute]
      rfl
    exact hpanic.fails
  · have hfound : (p.runMutants image tests points).Comes w (.ok found) fun _ => True := by
      refine ⟨{ w with log, written }, ?_, trivial⟩
      rw [run_runMutants, hexecute]
      rfl
    have hsublist := Pool.sublist_of_execute "Running mutants" (foreseen_runStep image tests)
      (fun {_ _ _} _ => trivial) p.mutantWorkers_ne_zero trivial (congrArg Prod.fst hexecute)
    have hlength := hsublist.length_le
    exact hfound.andThen fun between _ => hcheck found between (by omega)

/-! ## All results -/

/-- Results pass when there are as many as points and none is inconsistent. -/
theorem checkResults_eq_ok_iff {results : List MutationResult} :
    checkResults points results = .ok () ↔
      results.length = points.length ∧ ∀ r ∈ results, r.result.status ≠ .invalid := by
  rw [checkResults]
  by_cases hlength : results.length = points.length
  · rw [if_neg (not_not.mpr hlength)]
    cases hfind : results.find? fun r => r.result.status = .invalid with
    | some r =>
      have hr := List.mem_of_find?_eq_some hfind
      have hinvalid := List.find?_some hfind
      rw [decide_eq_true_eq] at hinvalid
      exact iff_of_false (fun h => nomatch h) fun h => h.2 r hr hinvalid
    | none =>
      have hvalid : ∀ r ∈ results, r.result.status ≠ .invalid := fun r hr =>
        of_decide_eq_false (eq_false_of_ne_true (List.find?_eq_none.mp hfind r hr))
      exact iff_of_true rfl ⟨hlength, hvalid⟩
  · rw [if_pos hlength]
    exact iff_of_false (fun h => nomatch h) fun h => hlength h.1

/-- Results are passed on when they are complete and none is invalid. -/
theorem checked_eq_ok_iff {found results : List MutationResult} :
    checked points found = .ok results ↔
      found.length = points.length ∧ (∀ r ∈ found, r.result.status ≠ .invalid) ∧
        sortResults found = results := by
  have hpasses : checkResults points (sortResults found) = .ok () ↔
      found.length = points.length ∧ ∀ r ∈ found, r.result.status ≠ .invalid := by
    rw [checkResults_eq_ok_iff, sortResults, List.length_mergeSort]
    simp only [List.mem_mergeSort]
  rw [checked, ← and_assoc, ← hpasses]
  cases checkResults points (sortResults found) with
  | error e => exact iff_of_false (fun h => nomatch h) fun h => nomatch h.1
  | ok passed => simp

/-- Results that are too few are noticed. -/
theorem checked_of_length_ne {found : List MutationResult} (h : found.length ≠ points.length) :
    checked points found = .error .noResults := by
  have hsorted : (sortResults found).length = found.length := List.length_mergeSort found
  rw [checked, checkResults, if_pos (by rwa [hsorted])]
  rfl

/-- The check of the results. -/
def check (points : List Point) (found : List MutationResult) : Run (List MutationResult) :=
  match checkResults points (sortResults found) with
  | .error e => throw e
  | .ok () => return sortResults found

/-- It is passed or not. -/
theorem comes_check (points : List Point) (found : List MutationResult) :
    (check points found).Comes w (checked points found) (w.Leaves w.program 0) := by
  rw [check, checked]
  cases checkResults points (sortResults found) with
  | error e => exact Run.comes_throw e
  | ok passed => exact Run.comes_pure _

/-- **Running mutants and checking their results** comes to what decides about them. -/
theorem comes_verdicts (image : Image) (tests : List Test) (points : List Point) :
    (p.runMutants image tests points >>= check points).Comes w
      (p.verdicts image tests points >>= checked points) (w.Leaves w.program 0) := by
  rw [verdicts]
  by_cases hreported : ∀ point ∈ points, p.isReported point (p.verdict image tests point) = true
  · rw [if_pos (List.all_eq_true.mpr hreported)]
    refine (comes_runMutants hreported).andThen fun between hbetween => ?_
    exact (comes_check _ _).imp fun _ => hbetween.same
  · rw [if_neg (mt List.all_eq_true.mp hreported)]
    -- A worker that is torn down takes results with it, which the check notices.
    refine comes_runMutants_of_not_isReported hreported fun found between hlength => ?_
    have hcheck := comes_check (w := between) points found
    rwa [checked_of_length_ne hlength] at hcheck

/-- **From the points to checked results.** The mutants are put in, built and run. -/
theorem comes_mutants (hcache : p.toolchain.cache = none)
    (hprogram : w.program.subjects = Program.numbered 0 ms)
    (hnames : ∀ m ∈ ms, m.functionNames.Nodup) (hsited : ∀ point ∈ points, point.Sited ms)
    (libraries : List ObjectFile) (tests : List Test) :
    (p.applyMutations points >>= fun _ => p.buildMutants libraries >>= fun image =>
        p.runMutants image tests points >>= check points).Comes w
      (p.mutantImage ms (libraries ++ w.program.objects) points >>= fun image =>
        p.verdicts image tests points >>= checked points)
      (fun later => w.Leaves later.program 0 later) := by
  rw [mutantImage]
  by_cases hfresh : FreshNames ms points
  · rw [if_pos hfresh]
    refine (comes_applyMutations_of_fresh hprogram hnames hsited hfresh).andThen
      fun applied happlied => ?_
    have hbuild := comes_buildMutants hcache libraries happlied.2.subjects_eq
    rw [happlied.2.objects_eq] at hbuild
    refine hbuild.bind fun image _ built hbuilt => ?_
    have hbuilt' := happlied.same hbuilt
    refine (comes_verdicts image tests points).imp fun later hlater => ?_
    exact (hbuilt'.same hlater).1
  · rw [if_neg hfresh]
    have hplaced : ∀ point ∈ points, point.module < ms.length := fun point hpoint =>
      (hsited point hpoint).lt
    have happly : (p.applyMutations points).Comes w
        (.error (.incomplete "Cloning functions for mutation")) fun _ => True :=
      comes_applyMutations_of_not_fresh hprogram hnames hplaced hfresh
    exact happly.fails

/-- **Listing mutants** comes to a result for each. -/
theorem comes_listing (points : List Point) :
    (Run.stage "Running mutants (dry run)" p.mutantWorkers Execution.listing points).Comes w
      (.ok (points.map fun point => ⟨point, .dryRun⟩)) (w.Leaves w.program 0) := by
  rw [List.map_eq_flatMap]
  exact Run.comes_stage "Running mutants (dry run)" p.mutantWorkers_ne_zero
    (fun (point : Point) state => rfl : ∀ point state,
      (Execution.listing point state).1 = { outputs := [⟨point, .dryRun⟩] })
    fun _ _ => Step.clean_outputs _

/-- **The results of points** are what decides about each of them, in the order of the ids. -/
theorem comes_results (hcache : p.toolchain.cache = none)
    (hprogram : w.program.subjects = Program.numbered 0 ms)
    (hnames : ∀ m ∈ ms, m.functionNames.Nodup) (hsited : ∀ point ∈ points, point.Sited ms)
    (libraries : List ObjectFile) (tests : List Test) :
    (p.results libraries tests points).Comes w
      (p.decided ms (libraries ++ w.program.objects) tests points)
      (fun later => w.Leaves later.program 0 later) := by
  have hkeep : ∀ later, w.Leaves w.program 0 later → w.Leaves later.program 0 later := by
    intro later hlater
    rwa [hlater.program_eq]
  rw [results, decided]
  cases points.isEmpty with
  | true => exact (Run.comes_pure []).imp hkeep
  | false =>
    dsimp only
    rw [unsorted]
    cases p.configuration.dryRun with
    | true =>
      refine (comes_listing points).andThen fun between hbetween => ?_
      exact (comes_check _ _).imp fun later hlater => hkeep later (hbetween.same hlater)
    | false =>
      simp only [Bool.false_eq_true, if_false, bind_assoc]
      exact comes_mutants hcache hprogram hnames hsited libraries tests

end

end Pipeline

end MutationLab
