import MutationLab.Proofs.Compilation
import MutationLab.Proofs.Merging
import MutationLab.Proofs.Mutants.Skipping
import MutationLab.Proofs.Probes
import MutationLab.Proofs.Runs
import MutationLab.Proofs.Testing
import MutationLab.Proofs.Tracing

/-! # What the tests cover

A test reaches a function when it passes on the instrumented image and activates the function
somewhere below its own entry (`Test.Reaches`). Probes, traces and records only transport this: the
candidates that a run of all tests leads to are the functions that some test reaches, with exactly
the tests that reach them and the least depth at which one does (`Pipeline.coverage_exact`). -/

namespace MutationLab

namespace Test

/-- What is chosen for a run of a test on the instrumented image. -/
def tracedSetup (watchdog : Watchdog) : Setup := { watchdog, tracing := true }

/-- The run of a test on the instrumented image: its result, and the trace if it was kept. -/
def traced (test : Test) (sandbox : Sandbox) (image : Image) (timing : Timing .zero) :
    ExecutionResult × Option Trace :=
  sandbox.run (fun watchdog => .ok (Testing.run image test { watchdog, tracing := true })) timing

/-- The depths at which a run of a test on the instrumented image activates the function of a
symbol. -/
def depths (test : Test) (image : Image) (watchdog : Watchdog) (symbol : String) : Set Nat :=
  {depth | ∃ entry, image.index? test.symbol = some entry ∧ ∃ f, f.symbol = symbol ∧
    (f, depth) ∈ Machine.activations image (tracedSetup watchdog) (Machine.fuelFor watchdog) entry
      [] {}}

/-- A test reaches the function of a symbol at a depth: the test passes on the instrumented image,
and this is the least depth at which its run activates the function, its own entry left out. -/
structure Reaches (test : Test) (sandbox : Sandbox) (image : Image) (timing : Timing .zero)
    (symbol : String) (depth : Nat) : Prop where
  passed : (test.traced sandbox image timing).1.status = .passed
  least : IsLeast (test.depths image timing.watchdog symbol) depth
  pos : 0 < depth

/-- No call is deeper than the machine allows. -/
theorem Reaches.depth_lt {test : Test} {sandbox : Sandbox} {image : Image} {timing : Timing .zero}
    {symbol : String} {depth : Nat} (h : test.Reaches sandbox image timing symbol depth) :
    depth < 512 := by
  obtain ⟨entry, -, f, -, hf⟩ := h.least.1
  have htracing : (tracedSetup timing.watchdog).tracing = true := rfl
  exact ((Machine.recorded_call htracing image _ entry [] {}).2 _ hf).1

end Test

/-! ## Probes in the image -/

section

variable {mangling : Mangling} {ms : List Module} {extra : List ObjectFile} {image : Image}
  (himage : Compilation.Builds { mangling, probes := some (.ofModules ms) } ms extra image)
  (hextra : ∀ o ∈ extra, ∀ f ∈ o.functions, f.probe = none)
  (hsize : (Probes.ofModules ms).size ≤ UInt32.size)

include himage hextra hsize

/-- In the image, a probe is that of the function to which it belongs. -/
theorem probe_eq_some_iff {key : FunctionKey} {probe : UInt32}
    (hprobe : (Probes.ofModules ms).function? probe = some key) {index : Nat} {g : LinkedFunction}
    (hg : image.function? index = some g) :
    g.probe = some probe ↔ g.symbol = mangling.mangle key.name := by
  obtain ⟨hsound, hholds⟩ := Compilation.builds_iff.mp himage
  obtain ⟨m, hm, f, hf, hname⟩ := Probes.of_function?_eq_some hprobe
  have hkeys : (Probes.ofModules ms).functions.Nodup :=
    Probes.nodup_keysFrom (fun m hm => (hsound m hm).nodup) 0
  have hmem : g ∈ image.functions.toList :=
    Array.mem_toList_iff.mpr (Array.mem_of_getElem? hg)
  rw [hholds.functions_eq] at hmem
  obtain ⟨compiled, hcompiled, rfl⟩ := List.mem_map.mp hmem
  rw [← hname]
  obtain ⟨id, n, hn, f', hf', rfl⟩ | ⟨o, ho, hcompiled⟩ :=
    Compilation.mem_programFunctions.mp hcompiled
  · have hiff : (Probes.ofModules ms).probe? ⟨id, f'.name⟩ = some probe ↔ _ :=
      Probes.probe?_eq_some_iff hkeys hsize
    constructor
    · intro h
      have hown := hiff.mp h
      rw [hprobe, Option.some.injEq] at hown
      rw [hname, hown]
      rfl
    · intro h
      have hsame : f'.name = f.name := mangling.mangle_injective h
      have hid : id = key.module := Compilation.id_eq_of_name_eq hholds.nodup hm hf hn hf' hsame
      refine hiff.mpr ?_
      rw [hprobe, hid, hsame, hname]
  · refine iff_of_false ?_ ?_
    · rw [CompiledFunction.locate, hextra o ho compiled hcompiled]
      simp
    · exact Compilation.symbol_ne_mangle hholds.nodup hm hf ho hcompiled

/-- A test passes the probe of a function at the depths at which it activates the function. -/
theorem depths_eq {key : FunctionKey} {probe : UInt32}
    (hprobe : (Probes.ofModules ms).function? probe = some key) {test : Test} {entry : Nat}
    (hentry : image.index? test.symbol = some entry) (watchdog : Watchdog) :
    Trace.depths (Machine.activations image (Test.tracedSetup watchdog)
        (Machine.fuelFor watchdog) entry [] {}) probe =
      test.depths image watchdog (mangling.mangle key.name) := by
  have htracing : (Test.tracedSetup watchdog).tracing = true := rfl
  obtain ⟨-, hactivations⟩ := Machine.recorded_call htracing image (Machine.fuelFor watchdog)
    entry [] {}
  ext depth
  constructor
  · rintro ⟨f, hf, hf'⟩
    obtain ⟨index, hindex⟩ := (hactivations _ hf).2
    exact ⟨entry, hentry, f, (probe_eq_some_iff himage hextra hsize hprobe hindex).mp hf', hf⟩
  · rintro ⟨other, hother, f, hsymbol, hf⟩
    obtain rfl := Option.some.inj (hentry.symm.trans hother)
    obtain ⟨index, hindex⟩ := (hactivations _ hf).2
    exact ⟨f, hf, (probe_eq_some_iff himage hextra hsize hprobe hindex).mpr hsymbol⟩

/-- **A hit of the trace** says with which least depth its function is activated. -/
theorem mem_trace_iff {key : FunctionKey} {probe depth : UInt32}
    (hprobe : (Probes.ofModules ms).function? probe = some key) {test : Test} {entry : Nat}
    (hentry : image.index? test.symbol = some entry) (watchdog : Watchdog) :
    (probe, depth) ∈ (Machine.call image (Test.tracedSetup watchdog) (Machine.fuelFor watchdog)
        entry [] {}).2.trace ↔
      IsLeast (test.depths image watchdog (mangling.mangle key.name)) depth.toNat := by
  have hlimit : (Test.tracedSetup watchdog).maxDepth ≤ UInt32.size := by
    show 512 ≤ UInt32.size
    decide
  rw [Machine.mem_trace_call rfl image _ _ _ hlimit,
    depths_eq himage hextra hsize hprobe hentry]

/-! ## Records -/

omit himage hextra hsize in
/-- A test that passes has an entry in the image, and its trace is that of a call of the entry. -/
theorem Test.traced_of_passed {test : Test} {sandbox : Sandbox} {timing : Timing .zero}
    (h : (test.traced sandbox image timing).1.status = .passed) :
    ∃ entry, image.index? test.symbol = some entry ∧
      (test.traced sandbox image timing).2 =
        some (Machine.call image (tracedSetup timing.watchdog) (Machine.fuelFor timing.watchdog)
          entry [] {}).2.trace := by
  obtain ⟨hpassed, hfound⟩ := Sandbox.run_of_passed h
  rw [traced, hfound]
  rw [Testing.run] at hpassed ⊢
  cases hentry : image.index? test.symbol with
  | none =>
    rw [hentry] at hpassed
    cases hpassed
  | some entry => exact ⟨entry, rfl, rfl⟩

omit himage hextra hsize in
/-- A test that does not pass leaves no record. -/
theorem Discovery.outputs_cover (finder : Mangling) (probes : Probes) (sandbox : Sandbox)
    (timing : Test → Timing .zero) (test : Test) (s : σ) :
    (cover (Testing.simple finder) image probes sandbox timing test s).1.outputs =
      if (test.traced sandbox image (timing test)).1.status = .passed then
        CoverageRecord.ofTrace probes test.id ((test.traced sandbox image (timing test)).2.getD [])
      else [] := by
  rw [cover, Task.stateless]
  by_cases h : (test.traced sandbox image (timing test)).1.status = .passed
  · rw [if_pos h]
    exact congrArg Step.outputs (if_pos h)
  · rw [if_neg h]
    exact congrArg Step.outputs (if_neg h)

/-- **A test leaves a record of each function that it reaches**, and no other. -/
theorem Discovery.mem_outputs_cover {sandbox : Sandbox} {timing : Test → Timing .zero}
    {test : Test} {finder : Mangling} {s : σ} {r : CoverageRecord} :
    r ∈ (cover (Testing.simple finder) image (.ofModules ms) sandbox timing test s).1.outputs ↔
      r.test = test.id ∧
      (∃ m, ms[r.function.module]? = some m ∧ ∃ f ∈ m.functions, f.name = r.function.name) ∧
      test.Reaches sandbox image (timing test) (mangling.mangle r.function.name)
        r.distance.toNat := by
  rw [outputs_cover]
  by_cases hpassed : (test.traced sandbox image (timing test)).1.status = .passed
  · obtain ⟨entry, hentry, htrace⟩ := Test.traced_of_passed hpassed
    rw [if_pos hpassed, htrace, Option.getD_some, CoverageRecord.ofTrace, List.mem_filterMap]
    constructor
    · rintro ⟨⟨probe, depth⟩, hmem, hr⟩
      dsimp only at hr
      split at hr
      · exact nomatch hr
      · rename_i hdepth
        obtain ⟨key, hprobe, rfl⟩ := Option.map_eq_some_iff.mp hr
        have hpos : 0 < depth.toNat := by
          rw [Nat.pos_iff_ne_zero, ne_eq, ← UInt32.toNat_zero, UInt32.toNat_inj]
          exact hdepth
        have hleast := (mem_trace_iff himage hextra hsize hprobe hentry _).mp hmem
        exact ⟨rfl, Probes.of_function?_eq_some hprobe, hpassed, hleast, hpos⟩
    · rintro ⟨htest, ⟨m, hm, f, hf, hname⟩, -, hleast, hpos⟩
      obtain ⟨probe, hprobe⟩ := Probes.exists_function?_eq_some hsize hm hf
      rw [hname] at hprobe
      refine ⟨(probe, r.distance),
        (mem_trace_iff himage hextra hsize hprobe hentry _).mpr hleast, ?_⟩
      have hne : r.distance ≠ 0 := by
        intro hzero
        rw [hzero] at hpos
        exact Nat.lt_irrefl 0 hpos
      dsimp only
      rw [if_neg hne, hprobe, Option.map_some, ← htest]
  · rw [if_neg hpassed]
    exact iff_of_false List.not_mem_nil fun h => hpassed h.2.2.passed

/-- The records of tests, by their parts. -/
theorem Discovery.exists_mem_records_iff {sandbox : Sandbox} {timing : Test → Timing .zero}
    {tests : List Test} {finder : Mangling} {s : σ} {key : FunctionKey} {id : TestId}
    {depth : Nat} :
    (∃ r ∈ tests.flatMap fun test =>
        (cover (Testing.simple finder) image (.ofModules ms) sandbox timing test s).1.outputs,
      r.function = key ∧ r.test = id ∧ r.distance.toNat = depth) ↔
      (∃ m, ms[key.module]? = some m ∧ ∃ f ∈ m.functions, f.name = key.name) ∧
        ∃ test ∈ tests, test.id = id ∧
          test.Reaches sandbox image (timing test) (mangling.mangle key.name) depth := by
  simp only [List.mem_flatMap, mem_outputs_cover himage hextra hsize]
  constructor
  · rintro ⟨r, ⟨test, htest, hid, hfunction, hreaches⟩, rfl, rfl, rfl⟩
    exact ⟨hfunction, test, htest, hid.symm, hreaches⟩
  · rintro ⟨hfunction, test, htest, rfl, hreaches⟩
    have htoNat : (UInt32.ofNat depth).toNat = depth :=
      UInt32.toNat_ofNat_of_lt' (hreaches.depth_lt.trans (by decide))
    refine ⟨⟨key, test.id, UInt32.ofNat depth⟩, ⟨test, htest, rfl, hfunction, ?_⟩, rfl, rfl, htoNat⟩
    rw [htoNat]
    exact hreaches

end

/-! ## Candidates -/

/-- Running a test always comes to an end; at worst there is a warning. -/
theorem Discovery.clean_cover (framework : Framework) (image : Image) (probes : Probes)
    (sandbox : Sandbox) (timing : Test → Timing .zero) (test : Test) (s : σ) :
    (cover framework image probes sandbox timing test s).1.Clean := by
  rw [cover, Task.stateless]
  dsimp only
  split
  · exact Step.clean_outputs _
  · refine ⟨rfl, fun m hm => ?_⟩
    obtain rfl := List.mem_singleton.mp hm
    exact nofun

/-- However many workers there are, what the tests cover is merged from all of their records. -/
theorem Pipeline.comes_coverage (p : Pipeline) (probes : Probes) (image : Image) (tests : List Test)
    (w : Workspace) :
    (p.coverage probes image tests).Comes w
      (.ok (Candidate.merge (tests.flatMap fun test => (Discovery.cover p.framework image probes
        p.sandbox p.originalTiming test ()).1.outputs)))
      (w.Leaves w.program 0) := by
  have hworkers : p.testWorkers ≠ 0 := Pools.size_ne_zero _
  have hstage := Run.comes_stage (w := w) "Running original tests" hworkers
    (fun (test : Test) s => rfl : ∀ test s,
      (Discovery.cover p.framework image probes p.sandbox p.originalTiming test s).1 = _)
    (fun test (_ : test ∈ tests) => Discovery.clean_cover _ _ _ _ _ test ())
  exact hstage.map Candidate.merge

/-- **Coverage is exact.** Take modules that are built with probes and with object files that carry
none, no more functions than there are numbers for probes, and any tests of the built-in framework.
However many workers run the tests, and whatever the clock says about each of them, the stage ends
with candidates in ascending order, one for each function of a module that some test reaches; the
tests of a candidate are those that reach its function, and its distance is the least depth at which
one of them does. -/
theorem Pipeline.coverage_exact {p : Pipeline} {finder mangling : Mangling} {ms : List Module}
    {extra : List ObjectFile} {image : Image} (hframework : p.framework = Testing.simple finder)
    (himage : Compilation.Builds { mangling, probes := some (.ofModules ms) } ms extra image)
    (hextra : ∀ o ∈ extra, ∀ f ∈ o.functions, f.probe = none)
    (hsize : (Probes.ofModules ms).size ≤ UInt32.size) (tests : List Test) (w : Workspace) :
    ∃ candidates, ((p.coverage (.ofModules ms) image tests).run.run w).1 = .ok candidates ∧
      ((candidates.map Candidate.function).Pairwise fun a b => a.lt b = true) ∧
      (∀ key, key ∈ candidates.map Candidate.function ↔
        (∃ m, ms[key.module]? = some m ∧ ∃ f ∈ m.functions, f.name = key.name) ∧
          ∃ test ∈ tests, ∃ depth, test.Reaches p.sandbox image (p.originalTiming test)
            (mangling.mangle key.name) depth) ∧
      ∀ c ∈ candidates, c.tests.Pairwise (· < ·) ∧
        (∀ id, id ∈ c.tests ↔ ∃ test ∈ tests, test.id = id ∧ ∃ depth, test.Reaches p.sandbox image
          (p.originalTiming test) (mangling.mangle c.function.name) depth) ∧
        IsLeast {depth | ∃ test ∈ tests, test.Reaches p.sandbox image (p.originalTiming test)
          (mangling.mangle c.function.name) depth} c.distance.toNat := by
  obtain ⟨later, hrun, -⟩ := p.comes_coverage (.ofModules ms) image tests w
  refine ⟨_, congrArg Prod.fst hrun, ?_⟩
  rw [hframework]
  generalize hrecords : (tests.flatMap fun test => (Discovery.cover (Testing.simple finder) image
    (.ofModules ms) p.sandbox p.originalTiming test ()).1.outputs) = records
  have hrecord : ∀ {key id depth},
      (∃ r ∈ records, r.function = key ∧ r.test = id ∧ r.distance.toNat = depth) ↔
        (∃ m, ms[key.module]? = some m ∧ ∃ f ∈ m.functions, f.name = key.name) ∧
          ∃ test ∈ tests, test.id = id ∧ test.Reaches p.sandbox image (p.originalTiming test)
            (mangling.mangle key.name) depth := by
    intro key id depth
    rw [← hrecords]
    exact Discovery.exists_mem_records_iff himage hextra hsize
  have hmerged := Candidate.merged_merge records
  have hplaced : ∀ key, key ∈ (Candidate.merge records).map Candidate.function ↔
      (∃ m, ms[key.module]? = some m ∧ ∃ f ∈ m.functions, f.name = key.name) ∧
        ∃ test ∈ tests, ∃ depth, test.Reaches p.sandbox image (p.originalTiming test)
          (mangling.mangle key.name) depth := by
    intro key
    rw [hmerged.functions]
    constructor
    · rintro ⟨r, hr, hfunction⟩
      obtain ⟨hfunction, test, htest, -, hreaches⟩ := hrecord.mp ⟨r, hr, hfunction, rfl, rfl⟩
      exact ⟨hfunction, test, htest, _, hreaches⟩
    · rintro ⟨hfunction, test, htest, depth, hreaches⟩
      obtain ⟨r, hr, hkey, -⟩ := hrecord.mpr ⟨hfunction, test, htest, rfl, hreaches⟩
      exact ⟨r, hr, hkey⟩
  refine ⟨hmerged.ascending, hplaced, fun c hc => ?_⟩
  -- The function of a candidate is one of the program.
  have hfunction := ((hplaced c.function).mp (List.mem_map_of_mem hc)).1
  have hsums := hmerged.sums c hc
  refine ⟨hsums.ascending, fun id => ?_, ?_⟩
  · rw [hsums.mem_tests]
    constructor
    · rintro ⟨r, hr, hkey, hid⟩
      obtain ⟨-, test, htest, hid, hreaches⟩ := hrecord.mp ⟨r, hr, hkey, hid, rfl⟩
      exact ⟨test, htest, hid, _, hreaches⟩
    · rintro ⟨test, htest, hid, depth, hreaches⟩
      obtain ⟨r, hr, hkey, hid, -⟩ := hrecord.mpr ⟨hfunction, test, htest, hid, hreaches⟩
      exact ⟨r, hr, hkey, hid⟩
  · have hdepths : {depth | ∃ test ∈ tests, test.Reaches p.sandbox image (p.originalTiming test)
        (mangling.mangle c.function.name) depth} =
        {depth | ∃ r ∈ records, r.function = c.function ∧ r.distance.toNat = depth} := by
      ext depth
      constructor
      · rintro ⟨test, htest, hreaches⟩
        obtain ⟨r, hr, hkey, -, hdepth⟩ := hrecord.mpr ⟨hfunction, test, htest, rfl, hreaches⟩
        exact ⟨r, hr, hkey, hdepth⟩
      · rintro ⟨r, hr, hkey, hdepth⟩
        obtain ⟨-, test, htest, -, hreaches⟩ := hrecord.mp ⟨r, hr, hkey, rfl, hdepth⟩
        exact ⟨test, htest, hreaches⟩
    rw [hdepths]
    exact hsums.distance

namespace Example

/-- The test of the example. -/
def test : Test :=
  { id := 0, name := "test_difference", symbol := "test_difference", module := 0, location := none }

end Example

/-- `coverage_exact` at a test that calls one function of its module. -/
theorem Pipeline.coverage_exact_example :
    Example.test.Reaches .watched Example.instrumented (.steady 10000 .zero 3000)
      "difference" 1 := by
  let p : Pipeline := { framework := Testing.simple .native }
  let w : Workspace := { program := .ofModules [Example.arithmetic] }
  have hcoverage : ((p.coverage (.ofModules [Example.arithmetic]) Example.instrumented
      [Example.test]).run.run w).1 =
        .ok [{ function := ⟨0, "difference"⟩, tests := [0], distance := 1 }] := by
    decide +kernel
  have hsize : (Probes.ofModules [Example.arithmetic]).size ≤ UInt32.size := by decide
  obtain ⟨candidates, hrun, -, -, hsums⟩ := coverage_exact (p := p) rfl Example.builds_instrumented
    (fun _ ho => absurd ho List.not_mem_nil) hsize [Example.test] w
  obtain rfl := Except.ok.inj (hcoverage.symm.trans hrun)
  obtain ⟨-, -, ⟨test, htest, hreaches⟩, -⟩ := hsums _ List.mem_cons_self
  obtain rfl := List.mem_singleton.mp htest
  exact hreaches

end MutationLab
