import MutationLab.Proofs.Mutants.Selection
import MutationLab.Proofs.Probes

/-! # Tests that do not reach a function

A test is not run with the mutants of functions that it does not enter. Nothing is lost: where the
trace of a run on the instrumented program shows that a function was not entered, a run with one of
its mutants active ends with the same value and the same output
(`Installed.ends_of_not_reached`). -/

namespace MutationLab

/-! ## Trampolines that are there already -/

/-- The mutants that an operation chooses among. -/
def Operation.mutants : Operation → List String
  | dispatch _ targets => targets.map DispatchTarget.mutant
  | _ => []

/-- The mutants that a compiled operation chooses among. -/
def ObjectOperation.mutants : ObjectOperation → List String
  | dispatch _ targets => targets.map Prod.fst
  | _ => []

/-- Compiling an operation keeps its mutants. -/
theorem Operation.mutants_lower (mangling : Mangling) (operation : Operation) :
    (operation.lower mangling).mutants = operation.mutants := by
  cases operation with
  | dispatch pristine targets =>
    rw [lower, ObjectOperation.mutants, mutants, List.map_map]
    rfl
  | _ => rfl

/-- Some trampoline of a program can choose a mutant. -/
def Chooses (ms : List Module) (extra : List ObjectFile) (mutant : String) : Prop :=
  (∃ m ∈ ms, ∃ f ∈ m.functions, ∃ i ∈ f.body, mutant ∈ i.operation.mutants) ∨
    ∃ o ∈ extra, ∃ f ∈ o.functions, ∃ operation ∈ f.code, mutant ∈ operation.mutants

instance (ms : List Module) (extra : List ObjectFile) (mutant : String) :
    Decidable (Chooses ms extra mutant) :=
  inferInstanceAs (Decidable (_ ∨ _))

/-- A mutant that no trampoline of a program can choose is none of its targets. -/
theorem choice_eq_of_not_chooses {c : Compilation} {ms : List Module} {extra : List ObjectFile}
    {mutant : String} (h : ¬ Chooses ms extra mutant) {g : CompiledFunction}
    (hg : g ∈ c.programFunctions ms extra) {pristine : String} {targets : List (String × String)}
    (hcode : .dispatch pristine targets ∈ g.code) :
    choice (some mutant) pristine targets = pristine := by
  refine choice_eq_pristine ?_ _
  rintro target htarget heq
  have hmutant : mutant ∈ (ObjectOperation.dispatch pristine targets).mutants :=
    List.mem_map.mpr ⟨target, htarget, (Option.some.inj heq).symm⟩
  obtain ⟨id, m, hm, f, hf, rfl⟩ | ⟨o, ho, hg⟩ := Compilation.mem_programFunctions.mp hg
  · obtain ⟨i, hi, hlower⟩ := List.mem_map.mp hcode
    rw [← hlower, Operation.mutants_lower] at hmutant
    exact h (.inl ⟨m, List.mem_of_getElem? hm, f, hf, i, hi, hmutant⟩)
  · exact h (.inr ⟨o, ho, g, hg, _, hcode, hmutant⟩)

/-! ## Skipping -/

namespace Installed

variable {mangling : Mangling} {ms mutated : List Module} {points : List Point}
  {extra : List ObjectFile} {original image : Image}

/-- The image with all mutants in the place of the instrumented one, for runs that do not enter the
function of the active point. -/
def avoiding (h : Installed ms points mutated) (hids : (points.map Point.id).Nodup)
    (horiginal : Compilation.Builds { mangling, probes := some (.ofModules ms) } ms extra original)
    (himage : Compilation.Builds { mangling } mutated extra image) {p : Point} (hp : p ∈ points)
    (hforeign : ¬ Chooses ms extra p.id) {probe : UInt32}
    (hprobe : (Probes.ofModules ms).probe? ⟨p.module, p.function⟩ = some probe) (maxDepth : Nat) :
    Replacement :=
  have hbuilds := Compilation.builds_iff.mp horiginal
  have hactive := Point.active?_eq_some hids hp rfl
  { source := original
    target := image
    sourceFunctions :=
      Compilation.programFunctions { mangling, probes := some (.ofModules ms) } ms extra
    targetFunctions := Compilation.programFunctions { mangling } mutated extra
    sourceSetup := { maxDepth, tracing := true }
    targetSetup := { selector := some p.id, maxDepth }
    standIn := standIn mangling points (some p)
    covered := fun symbol => mangling.mangle p.function ≠ symbol
    avoided := [probe]
    source_holds := hbuilds.2
    target_holds := (Compilation.builds_iff.mp himage).2
    source_never := rfl
    target_never := rfl
    maxDepth_eq := rfl
    body := by
      intro g hg hcovered
      obtain ⟨s, hs, -, -, hsame⟩ := exists_mem_mutateOnly hg (some p)
      -- Off the function of the point, the program with the point mutated is the program itself.
      obtain rfl := hsame fun q hq => Option.some.inj hq ▸ hcovered
      rw [← hactive] at hs ⊢
      exact h.exists_sameBody hbuilds.1 hbuilds.2.nodup { mangling } rfl (some p.id) hs
    entry := by
      intro g hg
      obtain ⟨s, hs, hsymbol, hparams, -⟩ := exists_mem_mutateOnly hg (some p)
      rw [← hactive] at hs ⊢
      obtain ⟨t, ht, htsymbol, htparams, hchoice⟩ :=
        h.exists_entry_symbol hbuilds.1 hbuilds.2.nodup { mangling } rfl (some p.id) hids hs
      rw [hsymbol] at htsymbol hchoice
      exact ⟨t, ht, htsymbol, htparams.trans hparams, fun _ => hchoice⟩
    choice_eq := by
      intro g hg _ pristine targets hcode
      exact choice_eq_of_not_chooses hforeign hg hcode
    traced := by
      intro g hg hentered
      have hsymbol : mangling.mangle p.function = g.symbol := not_not.mp hentered
      refine ⟨rfl, probe, List.mem_singleton_self probe, ?_⟩
      obtain ⟨id, m, hm, f, hf, rfl⟩ | ⟨o, ho, hg⟩ := Compilation.mem_programFunctions.mp hg
      · obtain ⟨rfl, hname⟩ :=
          h.of_mangle_eq hbuilds.1 hbuilds.2.nodup hm hf hp hsymbol
        rw [hname] at hprobe
        exact hprobe
      · exact absurd hsymbol (h.mangle_ne_of_mem_extra hbuilds.1 hbuilds.2.nodup ho hg hp) }

/-- **A test that does not enter a function cannot kill its mutants.** Take modules that are built
with probes and with further object files, put points of distinct ids into them, and build the
result with the same object files, where no trampoline that is there already can choose a point. If
a call ends with a value in the instrumented image and its trace has no hit for the probe of the
function of a point, at any depth, then with the point active it ends in the image with all mutants,
with the same value and the same output. -/
theorem ends_of_not_reached (h : Installed ms points mutated)
    (hids : (points.map Point.id).Nodup)
    (horiginal : Compilation.Builds { mangling, probes := some (.ofModules ms) } ms extra original)
    (himage : Compilation.Builds { mangling } mutated extra image)
    (hforeign : ∀ p ∈ points, ¬ Chooses ms extra p.id) {p : Point} (hp : p ∈ points)
    {symbol : String} {arguments : List Int64} {maxDepth fuel : Nat} {value : Int64} {e : Effects}
    (hcall : Machine.callSymbol original { maxDepth, tracing := true } fuel symbol arguments {} =
      (some (.ok value), e))
    (hreached : ∀ probe, (Probes.ofModules ms).probe? ⟨p.module, p.function⟩ = some probe →
      ∀ hit ∈ e.trace, hit.1 ≠ probe) :
    Machine.Ends image { selector := some p.id, maxDepth } symbol arguments {} (.ok value)
      e.stdout := by
  obtain ⟨hsound, hholds⟩ := Compilation.builds_iff.mp horiginal
  obtain ⟨m, f, hm, hf, hname⟩ := h.exists_function hsound hp
  obtain ⟨probe, hprobe⟩ := Probes.exists_probe?_eq_some hm hf
  rw [hname] at hprobe
  -- The only probe to avoid is that of the function of the point.
  let R := h.avoiding hids horiginal himage hp (hforeign p hp) hprobe maxDepth
  have havoided : ∀ avoided ∈ R.avoided, avoided ∉ e.trace.probes := by
    intro avoided havoided hmem
    obtain rfl := List.mem_singleton.mp havoided
    obtain ⟨hit, hhit, heq⟩ := List.mem_map.mp hmem
    exact hreached avoided hprobe hit hhit heq
  -- A call of a symbol that is not defined does not end with a value.
  obtain ⟨g, hg, rfl⟩ : ∃ g ∈ R.sourceFunctions, g.symbol = symbol := by
    refine List.mem_map.mp (hholds.isSome_index?.mp ?_)
    cases hindex : original.index? symbol with
    | some index => rfl
    | none =>
      rw [Machine.callSymbol, hindex] at hcall
      cases (Prod.mk.inj hcall).1
  exact R.ends_of_source hg rfl hcall havoided

end Installed

namespace Example

/-- How the example is compiled for its tests. -/
def instrumentation : Compilation :=
  { mangling := .native, probes := some (.ofModules [arithmetic]) }

/-- The instrumented image. -/
def instrumented : Image := .ofFunctions (instrumentation.programFunctions [arithmetic] [])

theorem builds_instrumented : instrumentation.Builds [arithmetic] [] instrumented :=
  Compilation.builds_ofFunctions (by decide +kernel) (by decide +kernel) (by decide +kernel)

end Example

/-- `ends_of_not_reached` at a test that enters one mutated function, but not the other. -/
theorem Installed.ends_of_not_reached_example :
    Machine.Ends Example.image { selector := some Example.addition.id } "test_difference" [] {}
      (.ok 0) "" := by
  have hcall : Machine.callSymbol Example.instrumented { maxDepth := 512, tracing := true } 6
      "test_difference" [] {} = (some (.ok 0), { steps := 6, trace := [(1, 1), (3, 0)] }) := by
    decide +kernel
  have hprobe : (Probes.ofModules [Example.arithmetic]).probe?
      ⟨Example.addition.module, Example.addition.function⟩ = some 0 := by
    decide +kernel
  refine Example.installed.ends_of_not_reached (by decide +kernel) Example.builds_instrumented
    Example.builds_image (by decide +kernel) List.mem_cons_self hcall ?_
  intro probe hsum
  obtain rfl := Option.some.inj (hprobe.symm.trans hsum)
  simp

end MutationLab
