import MutationLab.Proofs.Coverage
import MutationLab.Proofs.Discovery

/-! # From a program to its points

What the stages up to the points of a program come to: compiling gives all object files or is
incomplete (`Pipeline.comes_compileAll`), and the points are those of the functions that tests reach
and filters let through (`Pipeline.comes_findPoints`), whatever the sizes of the pools. -/

namespace MutationLab

namespace Pipeline

/-! ## From the program to its points -/

/-- The object files of modules. -/
def compiled (p : Pipeline) (label : String) (probes : Option Probes) (ms : List Module) :
    Except Failure (List ObjectFile) :=
  (Compilation.compileAll { mangling := p.toolchain.mangling, probes } 0 ms).mapError
    fun _ => .incomplete label

/-- The functions that tests reach and filters let through, with their instructions selected. -/
def candidates (p : Pipeline) (program : Program) (image : Image) (tests : List Test) :
    List Candidate :=
  let records := tests.flatMap fun test =>
    (Discovery.cover p.framework image program.probes p.sandbox p.originalTiming test
      ()).1.outputs
  let kept := (Candidate.merge records).filter fun c =>
    p.filters.functions.all fun filter => c.passes program filter
  kept.map (Candidate.select program p.filters.instructions)

/-- The points of a candidate. -/
def pointsOf (p : Pipeline) (program : Program) (c : Candidate) : List Point :=
  (c.points program p.operators).toOption.getD []

/-- The points of a program. Without tests there are none. -/
def found (p : Pipeline) (program : Program) (objects : List ObjectFile) (tests : List Test) :
    Except Failure (List Point) :=
  if tests.isEmpty then .ok []
  else
    match p.framework.load objects with
    | .error e => .error (.link e)
    | .ok none => .error .notLoaded
    | .ok (some image) =>
        .ok (Point.sortById ((p.candidates program image tests).flatMap (p.pointsOf program)))

/-- The points that the filters leave. -/
def surviving (p : Pipeline) (points : List Point) : List Point :=
  Point.sortById (points.filter fun point =>
    p.filters.points.all fun filter => !filter.skips point)

/-! ## The stages up to the points -/

section

variable {p : Pipeline} {w : Workspace}

/-- The general pool has a worker. -/
theorem workers_ne_zero (p : Pipeline) : p.workers ≠ 0 := Pools.size_ne_zero _

/-- The pool for mutants has a worker. -/
theorem mutantWorkers_ne_zero (p : Pipeline) : p.mutantWorkers ≠ 0 := Pools.size_ne_zero _

/-- What compiling a module puts out. -/
def compileStep (c : Compilation) (s : Subject) : Step ObjectFile :=
  match c.compile s.id s.module with
  | .ok o => { outputs := [o] }
  | .error e => { ending := .failed (.compile e) }

/-- A sound module gives its object file. -/
theorem compileStep_of_sound {c : Compilation} {s : Subject} (h : s.module.Sound) :
    compileStep c s = { outputs := [c.object s.id s.module] } := by
  rw [compileStep, Compilation.compile_eq_ok_iff.mpr ⟨h, rfl⟩]

/-- A module that is not sound gives nothing. -/
theorem compileStep_of_not_sound {c : Compilation} {s : Subject} (h : ¬ s.module.Sound) :
    ∃ e, compileStep c s = { ending := .failed e } := by
  rw [compileStep]
  cases hobject : c.compile s.id s.module with
  | ok o => exact absurd (Compilation.compile_eq_ok_iff.mp hobject).1 h
  | error e => exact ⟨_, rfl⟩

/-- Sound modules give all of their object files. -/
theorem flatMap_compileStep {c : Compilation} {subjects : List Subject}
    (h : ∀ s ∈ subjects, s.module.Sound) :
    (subjects.flatMap fun s => (compileStep c s).outputs) =
      subjects.map fun s => c.object s.id s.module := by
  rw [List.flatMap_congr fun s hs => congrArg Step.outputs (compileStep_of_sound (h s hs))]
  exact List.map_eq_flatMap.symm

/-- If a module is not sound, there are too few object files. -/
theorem length_flatMap_compileStep_lt {c : Compilation} {subjects : List Subject} {s : Subject}
    (hs : s ∈ subjects) (h : ¬ s.module.Sound) :
    (subjects.flatMap fun s => (compileStep c s).outputs).length < subjects.length := by
  obtain ⟨e, hstep⟩ := compileStep_of_not_sound (c := c) h
  refine Pool.length_flatMap_outputs_lt (fun s _ => ?_) hs (by rw [hstep])
  by_cases hsound : s.module.Sound
  · rw [compileStep_of_sound hsound]
    exact Nat.le_refl 1
  · obtain ⟨e, hstep⟩ := compileStep_of_not_sound (c := c) hsound
    rw [hstep]
    exact Nat.zero_le 1

/-- Compiling does not panic, whether a module is sound or not. -/
theorem compileStep_ne_panicked (c : Compilation) (s : Subject) (panic : Panic) :
    (compileStep c s).ending ≠ .panicked panic := by
  by_cases hs : s.module.Sound
  · rw [compileStep_of_sound hs]
    simp
  · obtain ⟨e, hstep⟩ := compileStep_of_not_sound (c := c) hs
    rw [hstep]
    simp

/-- Compiling is incomplete if some module is not sound. -/
theorem compiled_of_not_sound {label : String} {probes : Option Probes} {ms : List Module}
    (h : ¬ ∀ m ∈ ms, m.Sound) : p.compiled label probes ms = .error (.incomplete label) := by
  rw [compiled]
  cases hall : Compilation.compileAll { mangling := p.toolchain.mangling, probes } 0 ms with
  | ok objects => exact absurd (Compilation.compileAll_eq_ok_iff.mp hall).1 h
  | error e => rfl

/-- Without a cache the files are left alone. -/
theorem compileTask_eq (hcache : p.toolchain.cache = none) (probes : Option Probes) (s : Subject)
    (files : FileTree) :
    p.compileTask probes s files =
      (compileStep { mangling := p.toolchain.mangling, probes } s, files) := by
  have hcompile : p.toolchain.compile probes s files =
      { object := Compilation.compile { mangling := p.toolchain.mangling, probes } s.id s.module
        files } := by
    unfold Toolchain.compile
    rw [hcache]
  rw [compileTask, hcompile, compileStep]
  cases Compilation.compile { mangling := p.toolchain.mangling, probes } s.id s.module <;> rfl

/-- **Compiling** comes to the object files of all modules, or it is incomplete. -/
theorem comes_compileAll (hcache : p.toolchain.cache = none) (label : String)
    (probes : Option Probes) {ms : List Module}
    (hms : w.program.subjects.map (fun s => (s.module, s.id)) = ms.zipIdx) :
    (p.compileAll label probes).Comes w (p.compiled label probes ms) (w.Leaves w.program 0) := by
  let c : Compilation := { mangling := p.toolchain.mangling, probes }
  have htask := compileTask_eq hcache probes
  have hmodules : w.program.subjects.map Subject.module = ms := by
    have hfst := congrArg (List.map Prod.fst) hms
    rwa [List.map_map, List.zipIdx_map_fst] at hfst
  refine Run.comes_get_bind ?_
  -- Sound modules give one object file each; a module that is not sound leaves the stage short.
  by_cases hsound : ∀ m ∈ ms, m.Sound
  · have hsound' : ∀ s ∈ w.program.subjects, s.module.Sound := fun s hs =>
      hsound _ (hmodules ▸ List.mem_map_of_mem hs)
    have hclean : ∀ s ∈ w.program.subjects, (compileStep c s).Clean := by
      intro s hs
      rw [compileStep_of_sound (hsound' s hs)]
      exact Step.clean_outputs _
    have hcompiled : p.compiled label probes ms =
        .ok (w.program.subjects.flatMap fun s => (compileStep c s).outputs) := by
      rw [flatMap_compileStep hsound', compiled,
        Compilation.compileAll_eq_ok_iff.mpr ⟨hsound, rfl⟩, ← hms, List.map_map]
      rfl
    rw [hcompiled]
    refine (Run.comes_stageOnFiles label p.workers_ne_zero htask hclean).andThen
      fun between hbetween => ?_
    refine (Run.comes_ensureCount label ?_).andThen fun after hafter => ?_
    · rw [flatMap_compileStep hsound', List.length_map]
    · exact (Run.comes_pure _).imp fun _ hlater => hbetween.same (hafter.same hlater)
  · rw [compiled_of_not_sound hsound]
    simp only [not_forall, exists_prop] at hsound
    obtain ⟨m, hm, hfaulty⟩ := hsound
    rw [← hmodules] at hm
    obtain ⟨s, hs, rfl⟩ := List.mem_map.mp hm
    exact Run.comes_stageOnFiles_of_short label p.workers_ne_zero htask
      (fun s _ => compileStep_ne_panicked c s) (length_flatMap_compileStep_lt hs hfaulty)

/-- Reading libraries, at worst there are warnings. -/
theorem level_of_mem_readLibraries {files : FileTree} {paths : List String} {m : Message}
    (h : m ∈ (readLibraries files paths).2) : m.level = .warning := by
  induction paths with
  | nil => cases h
  | cons path paths ih =>
    rw [readLibraries] at h
    cases hread : ObjectFile.readFrom files path with
    | ok o =>
      rw [hread] at h
      exact ih h
    | error e =>
      rw [hread] at h
      obtain rfl | h := List.mem_cons.mp h
      · rfl
      · exact ih h

/-- Function filters, one after the other, let through what all of them let through. -/
theorem comes_filterFunctions (program : Program) (filters : List FunctionFilter)
    (cs : List Candidate) :
    (p.filterFunctions program filters cs).Comes w
      (.ok (cs.filter fun c => filters.all fun filter => c.passes program filter))
      (w.Leaves w.program 0) :=
  Run.comes_chain p.workers_ne_zero (fun _ => rfl) (fun _ _ _ => rfl) filters cs

/-- Point filters, one after the other, leave what none of them skips. -/
theorem comes_dropPoints (filters : List PointFilter) (points : List Point) :
    (p.dropPoints filters points).Comes w
      (.ok (points.filter fun point => filters.all fun filter => !filter.skips point))
      (w.Leaves w.program 0) :=
  Run.comes_chain p.workers_ne_zero (fun _ => rfl) (fun _ _ _ => rfl) filters points

/-- Selecting instructions is a stage of its own kind, in which the candidates are changed. -/
theorem run_selectInstructions (program : Program) (cs : List Candidate) (w : Workspace) :
    (p.selectInstructions program cs).run.run w =
      match Pool.executeInPlace "Instruction selection" p.workers
        (Discovery.selection program p.filters.instructions) cs w.log with
      | (outcome, log, selected) =>
        ((outcome.mapError .panicked).map fun _ => selected, { w with log }) := rfl

/-- Every candidate gets its instructions selected. -/
theorem comes_selectInstructions (program : Program) (cs : List Candidate) :
    (p.selectInstructions program cs).Comes w
      (.ok (cs.map (Candidate.select program p.filters.instructions))) (w.Leaves w.program 0) := by
  have hclean : ∀ c ∈ cs, (Discovery.selection program p.filters.instructions c).1.Clean :=
    fun _ _ => Step.clean_outputs _
  obtain ⟨log, hexecute, herrors⟩ := Pool.executeInPlace_of_clean "Instruction selection"
    p.workers_ne_zero w.log hclean
  refine ⟨{ w with log }, ?_, rfl, rfl, herrors⟩
  rw [run_selectInstructions, hexecute]
  rfl

/-- Searching is one stage. -/
theorem run_searchPoints (program : Program) (cs : List Candidate) (w : Workspace) :
    (p.searchPoints program cs).run.run w =
      match Discovery.points program p.operators p.workers cs w.log with
      | (points, log) => (points.mapError .panicked, { w with log }) := rfl

/-- Candidates of known modules give all of their points. -/
theorem comes_searchPoints {program : Program} {cs : List Candidate}
    (hknown : ∀ c ∈ cs, ∃ s, program.subject? c.function.module = some s) :
    (p.searchPoints program cs).Comes w (.ok (Point.sortById (cs.flatMap (p.pointsOf program))))
      (w.Leaves w.program 0) := by
  have hworkers : max p.workers 1 ≠ 0 := by omega
  have hstep : ∀ c ∈ cs, (Discovery.search program p.operators c ()).1 =
      { outputs := p.pointsOf program c } := by
    intro c hc
    obtain ⟨s, hs⟩ := hknown c hc
    -- A candidate whose module is there is searched without an error, even if its function is gone.
    obtain ⟨points, hpoints⟩ : ∃ points, c.points program p.operators = .ok points := by
      rw [Candidate.points, hs]
      dsimp only
      cases s.module.function? c.function.name with
      | none => exact ⟨_, rfl⟩
      | some f => exact ⟨_, rfl⟩
    rw [Discovery.search, Task.stateless, pointsOf, hpoints]
    rfl
  have hclean : ∀ c ∈ cs, (Discovery.search program p.operators c ()).1.Clean := by
    intro c hc
    rw [hstep c hc]
    exact Step.clean_outputs _
  have hforeseen : Task.Foreseen (Discovery.search program p.operators)
      (fun c => (Discovery.search program p.operators c ()).1) fun _ _ => True :=
    Task.foreseen_of_forall fun _ _ => rfl
  obtain ⟨log, hexecute, herrors⟩ := Pool.execute_of_clean "Searching mutants across functions"
    hforeseen hworkers w.log trivial hclean
  rw [List.flatMap_congr fun c hc => congrArg Step.outputs (hstep c hc)] at hexecute
  have hpoints : Discovery.points program p.operators p.workers cs w.log =
      (.ok (Point.sortById (cs.flatMap (p.pointsOf program))), log) := by
    rw [Discovery.points, hexecute]
    rfl
  refine ⟨{ w with log }, ?_, rfl, rfl, herrors⟩
  rw [run_searchPoints, hpoints]
  rfl

/-- A record is left by a test that has passed, and its function is that of a probe. -/
theorem of_mem_outputs_cover {framework : Framework} {image : Image} {probes : Probes}
    {sandbox : Sandbox} {timing : Test → Timing .zero} {test : Test} {s : σ} {r : CoverageRecord}
    (h : r ∈ (Discovery.cover framework image probes sandbox timing test s).1.outputs) :
    r.test = test.id ∧
      (sandbox.run (fun watchdog => .ok (framework.run image test { watchdog, tracing := true }))
        (timing test)).1.status = .passed ∧
      ∃ probe, probes.function? probe = some r.function := by
  rw [Discovery.cover, Task.stateless] at h
  dsimp only at h
  split at h
  · rename_i hpassed
    rw [CoverageRecord.ofTrace, List.mem_filterMap] at h
    obtain ⟨⟨probe, depth⟩, -, hr⟩ := h
    dsimp only at hr
    split at hr
    · cases hr
    · obtain ⟨key, hprobe, rfl⟩ := Option.map_eq_some_iff.mp hr
      exact ⟨rfl, hpassed, probe, hprobe⟩
  · cases h

/-- A candidate sums up records of tests that have passed. -/
theorem exists_sums_of_mem_candidates {program : Program} {image : Image} {tests : List Test}
    {c : Candidate} (h : c ∈ p.candidates program image tests) :
    ∃ merged records, Candidate.Sums records merged ∧ c.function = merged.function ∧
      c.tests = merged.tests ∧ (∃ r ∈ records, r.function = merged.function) ∧
      ∀ r ∈ records, ∃ test ∈ tests, r ∈ (Discovery.cover p.framework image program.probes p.sandbox
        p.originalTiming test ()).1.outputs := by
  obtain ⟨merged, hmerged, rfl⟩ := List.mem_map.mp h
  have hmem := List.mem_of_mem_filter hmerged
  have hall := Candidate.merged_merge (tests.flatMap fun test => (Discovery.cover p.framework image
    program.probes p.sandbox p.originalTiming test ()).1.outputs)
  refine ⟨merged, _, hall.sums merged hmem, Candidate.function_select .., Candidate.tests_select ..,
    (hall.functions _).mp (List.mem_map_of_mem hmem), fun r hr => List.mem_flatMap.mp hr⟩

/-- The candidates are functions of the program: a function is known by its probe only. -/
theorem exists_subject_of_mem_candidates {program : Program} {image : Image} {tests : List Test}
    {c : Candidate} (h : c ∈ p.candidates program image tests) :
    ∃ s, program.subject? c.function.module = some s := by
  obtain ⟨merged, records, -, hfunction, -, ⟨r, hr, hrecord⟩, hrecords⟩ :=
    exists_sums_of_mem_candidates h
  obtain ⟨test, -, hr⟩ := hrecords r hr
  obtain ⟨-, -, probe, hprobe⟩ := of_mem_outputs_cover hr
  obtain ⟨m, hm, -⟩ := Probes.of_function?_eq_some hprobe
  rw [Program.modules, List.getElem?_map] at hm
  obtain ⟨s, hs, -⟩ := Option.map_eq_some_iff.mp hm
  rw [hfunction, ← hrecord]
  exact ⟨s, hs⟩

/-- **Finding the points** comes to the points of all candidates. -/
theorem comes_findPoints (instrumented libraries : List ObjectFile) (tests : List Test) :
    (p.findPoints w.program.probes instrumented libraries tests).Comes w
      (p.found w.program (instrumented ++ libraries ++ w.program.objects) tests)
      (w.Leaves w.program 0) := by
  rw [findPoints, found]
  cases htests : tests.isEmpty with
  | true =>
    have hsay : (Run.say .warning "No tests found, skipping mutation point discovery").Comes w
        (.ok ()) (w.Leaves w.program 0) := Run.comes_say (by decide) _
    refine hsay.andThen fun between hbetween => ?_
    exact (Run.comes_pure _).imp fun _ => hbetween.same
  | false =>
    have hload := Run.comes_single (w := w) "Preparing original test run" fun w =>
      (p.framework.load (instrumented ++ libraries ++ w.program.objects), [])
    refine hload.andThen fun between hbetween => ?_
    dsimp only
    cases p.framework.load (instrumented ++ libraries ++ w.program.objects) with
    | error e => exact Run.comes_throw _
    | ok loaded =>
      cases loaded with
      | none => exact Run.comes_throw _
      | some image =>
        have hprogram := hbetween.program_eq
        refine Run.comes_get_bind ?_
        rw [hprogram]
        refine (p.comes_coverage _ image tests between).andThen fun covered hcovered => ?_
        refine (comes_filterFunctions _ p.filters.functions _).andThen fun kept hkept => ?_
        refine (comes_selectInstructions _ _).andThen fun selected hselected => ?_
        refine (comes_searchPoints fun c hc => exists_subject_of_mem_candidates hc).imp
          fun later hlater => ?_
        exact hbetween.same (hcovered.same (hkept.same (hselected.same hlater)))

end

end Pipeline

end MutationLab
