import MutationLab.Proofs.Pipeline.Mutating
import MutationLab.Proofs.Pipeline.Points

/-! # What a run comes to

The outcome of a run as a function of the program and of the object files that are read
(`Pipeline.outcome`). A run without a cache on a program as it is loaded comes to it, or fails for
the reason that it gives (`Pipeline.comes_stages`). No pool has a part in it, so the sizes of the
pools do not matter (`Pipeline.run_eq_ok_iff_of_pools`). -/

namespace MutationLab

namespace Pipeline

/-- The object files that join every link of a run: the libraries that can be read, then those of
the program. -/
def joined (files : FileTree) (program : Program) : List ObjectFile :=
  (readLibraries files program.libraries).1 ++ program.objects

/-- The points of a run that the filters leave. -/
def points (p : Pipeline) (files : FileTree) (program : Program) : Except Failure (List Point) := do
  let instrumented ← p.compiled "Compiling instrumented code" (some program.probes) program.modules
  let found ← p.found program (instrumented ++ joined files program) (p.framework.find program).1
  return p.surviving found

/-- **What a run comes to**, or why it fails. -/
def outcome (p : Pipeline) (files : FileTree) (program : Program) :
    Except Failure PipelineResult := do
  let points ← p.points files program
  let tests := (p.framework.find program).1
  let results ← p.decided program.modules (joined files program) tests points
  return { tests, results, points }

section

variable {p : Pipeline} {program : Program}

/-- Modules that compile are sound. -/
theorem sound_of_compiled {label : String} {probes : Option Probes} {ms : List Module}
    {objects : List ObjectFile} (h : p.compiled label probes ms = .ok objects) :
    ∀ m ∈ ms, m.Sound := by
  rw [compiled] at h
  cases hall : Compilation.compileAll { mangling := p.toolchain.mangling, probes } 0 ms with
  | error e =>
    rw [hall] at h
    cases h
  | ok objects => exact (Compilation.compileAll_eq_ok_iff.mp hall).1

/-- **A run without a cache on a program as it is loaded** comes to its outcome. The only errors it
says are those of the framework about the tests. -/
theorem comes_stages {w : Workspace} {ms : List Module} (hcache : p.toolchain.cache = none)
    (hprogram : w.program.subjects = Program.numbered 0 ms) :
    p.stages.Comes w (p.outcome w.files w.program) fun later =>
      later.log.errors =
        w.log.errors + (p.framework.find w.program).2.countP (·.level = .error) := by
  have hmodules : w.program.modules = ms := by
    rw [Program.modules, hprogram, Program.map_module_numbered]
  have hnumbered : w.program.subjects.map (fun s => (s.module, s.id)) = ms.zipIdx := by
    rw [hprogram, Program.map_numbered]
  rw [outcome, points, hmodules]
  simp only [bind_assoc, pure_bind]
  refine Run.comes_get_bind ?_
  refine (comes_compileAll hcache _ _ hnumbered).bind fun instrumented hinstrumented compiled
    hcompiled => ?_
  have hlibraries := Run.comes_single (w := compiled) "Loading dynamic libraries" fun w =>
    readLibraries w.files w.program.libraries
  have hquiet : (readLibraries compiled.files compiled.program.libraries).2.countP
      (·.level = .error) = 0 := by
    refine List.countP_eq_zero.mpr fun m hm => ?_
    rw [level_of_mem_readLibraries hm]
    decide
  rw [hquiet, hcompiled.program_eq, hcompiled.files_eq] at hlibraries
  refine hlibraries.andThen fun loaded hloaded => ?_
  have hloaded' : w.Leaves w.program 0 loaded := hcompiled.trans hloaded
  have htests := Run.comes_single (w := loaded) "Searching tests" fun w =>
    p.framework.find w.program
  rw [hloaded'.program_eq] at htests
  refine htests.andThen fun searched hsearched => ?_
  have hsearched' := hloaded'.trans hsearched
  refine (Run.comes_say (by decide) _).andThen fun said hsaid => ?_
  have hsaid' := hsearched'.same hsaid
  have hfound := comes_findPoints (p := p) (w := said) instrumented
    (readLibraries w.files w.program.libraries).1 (p.framework.find w.program).1
  rw [hsaid'.program_eq, List.append_assoc] at hfound
  refine hfound.bind fun found hfound between hbetween => ?_
  have hbetween' := hsaid'.trans hbetween
  -- All points are on functions of the program.
  have hsited : ∀ point ∈ p.surviving found, point.Sited ms := by
    intro point hpoint
    obtain ⟨image, -, c, -, hoffers⟩ :=
      exists_offers_of_found hfound (mem_of_mem_surviving hpoint)
    exact hmodules ▸ hoffers.sited
  have hnames : ∀ m ∈ ms, m.functionNames.Nodup := fun m hm =>
    (sound_of_compiled hinstrumented m hm).nodup
  refine (comes_dropPoints p.filters.points found).andThen fun dropped hdropped => ?_
  have hdropped' := hbetween'.same hdropped
  refine (Run.comes_say (by decide) _).andThen fun counted hcounted => ?_
  have hcounted' := hdropped'.same hcounted
  have hloadedAgain : counted.program.subjects = Program.numbered 0 ms := by
    rw [hcounted'.program_eq, hprogram]
  have hresults := comes_results hcache hloadedAgain hnames hsited
    (readLibraries w.files w.program.libraries).1 (p.framework.find w.program).1
  rw [hcounted'.program_eq] at hresults
  refine hresults.bind fun results _ ended hended => (Run.comes_pure _).imp fun later hlater => ?_
  have herrors := (hcounted'.trans (hended.same hlater)).errors_eq
  omega

/-- **A run ends with its outcome**, an error apart from its details. -/
theorem mapError_run {w : Workspace} {ms : List Module} (hcache : p.toolchain.cache = none)
    (hprogram : w.program.subjects = Program.numbered 0 ms) :
    (p.run w).1.mapError PipelineError.failure = p.outcome w.files w.program := by
  have hcomes := comes_stages hcache hprogram
  unfold Run.Comes at hcomes
  split at hcomes
  · rename_i result houtcome
    obtain ⟨later, hrun, -⟩ := hcomes
    rw [run, hrun]
    exact houtcome.symm
  · rename_i failure houtcome
    obtain ⟨e, later, hrun, rfl⟩ := hcomes
    rw [run, hrun]
    exact houtcome.symm

/-- A run has a result exactly when its outcome is this result. -/
theorem run_eq_ok_iff {w : Workspace} {ms : List Module} (hcache : p.toolchain.cache = none)
    (hprogram : w.program.subjects = Program.numbered 0 ms) (result : PipelineResult) :
    (p.run w).1 = .ok result ↔ p.outcome w.files w.program = .ok result := by
  rw [← mapError_run hcache hprogram]
  exact mapError_eq_ok_iff.symm

end

end Pipeline

namespace Example

/-- A run on the example. -/
def pipeline : Pipeline := { framework := Testing.simple .native }

/-- The example as it is loaded. -/
def workspace : Workspace := { program := .ofModules [arithmetic] }

end Example

end MutationLab
