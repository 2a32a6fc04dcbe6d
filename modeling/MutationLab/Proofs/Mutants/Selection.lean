import MutationLab.Proofs.Application.History
import MutationLab.Proofs.Mutants.Installed

/-! # A selector selects one mutant

The image that holds all mutants runs like the image in which only the active point is mutated.
First the latter image is shown to exist (`exists_builds_mutateOnly`), then the former is compared
with it function by function (`Installed.replacement`). -/

namespace MutationLab

/-! ## The program with one mutant -/

section

variable {c : Compilation} {ms : List Module} {extra : List ObjectFile} {active : Option Point}

/-- The modules keep their positions. -/
theorem zipIdx_mutateOnly (active : Option Point) (ms : List Module) :
    (mutateOnly active ms).zipIdx = ms.zipIdx.map fun entry =>
      ({ entry.1 with functions := entry.1.functions.map (Function.mutateIf active entry.2) },
        entry.2) := by
  refine List.ext_getElem (by simp [mutateOnly]) ?_
  intro index hleft hright
  simp [mutateOnly]

/-- The functions of the program with the active point mutated. -/
theorem programFunctions_mutateOnly :
    c.programFunctions (mutateOnly active ms) extra =
      (ms.zipIdx.flatMap fun entry =>
        entry.1.functions.map fun f => c.function entry.2 (f.mutateIf active entry.2)) ++
      extra.flatMap ObjectFile.functions := by
  rw [Compilation.programFunctions, zipIdx_mutateOnly, List.flatMap_map]
  congr 2
  funext entry
  exact List.map_map

/-- They come from the modules or from the object files. -/
theorem mem_programFunctions_mutateOnly {g : CompiledFunction} :
    g ∈ c.programFunctions (mutateOnly active ms) extra ↔
      (∃ id m, ms[id]? = some m ∧ ∃ f ∈ m.functions, c.function id (f.mutateIf active id) = g) ∨
        ∃ o ∈ extra, g ∈ o.functions := by
  rw [programFunctions_mutateOnly, List.mem_append, mem_flatMap_zipIdx, List.mem_flatMap]
  simp only [List.mem_map]

/-- Mutating a point changes no symbol. -/
theorem map_symbol_programFunctions_mutateOnly :
    (c.programFunctions (mutateOnly active ms) extra).map CompiledFunction.symbol =
      (c.programFunctions ms extra).map CompiledFunction.symbol := by
  rw [programFunctions_mutateOnly, Compilation.programFunctions, List.map_append, List.map_append]
  simp only [List.map_flatMap]
  congr 2
  funext entry
  rw [List.map_map, List.map_map]
  refine List.map_congr_left fun f _ => ?_
  exact congrArg c.mangling.mangle Function.name_mutateIf

/-- Every function of a program is there with the active point mutated, and is the same one unless
the point is on it. -/
theorem exists_mem_mutateOnly {g : CompiledFunction} (hg : g ∈ c.programFunctions ms extra)
    (active : Option Point) :
    ∃ s ∈ c.programFunctions (mutateOnly active ms) extra, s.symbol = g.symbol ∧
      s.params = g.params ∧
      ((∀ p, active = some p → c.mangling.mangle p.function ≠ g.symbol) → s = g) := by
  obtain ⟨id, m, hm, f, hf, rfl⟩ | hg := Compilation.mem_programFunctions.mp hg
  · refine ⟨c.function id (f.mutateIf active id),
      mem_programFunctions_mutateOnly.mpr (.inl ⟨id, m, hm, f, hf, rfl⟩),
      congrArg c.mangling.mangle Function.name_mutateIf, Function.params_mutateIf, ?_⟩
    intro hoff
    rw [Function.mutateIf_of_forall_ne fun p hactive hname => hoff p hactive (congrArg _ hname)]
  · exact ⟨g, mem_programFunctions_mutateOnly.mpr (.inr hg), rfl, rfl, fun _ => rfl⟩

/-- What a program provides, it provides with a point mutated. -/
theorem provides_mutateOnly {use : String × Nat}
    (h : Provides (c.programFunctions ms extra) use) (active : Option Point) :
    Provides (c.programFunctions (mutateOnly active ms) extra) use := by
  obtain ⟨g, hg, hsymbol, hparams⟩ := h
  obtain ⟨s, hs, hssymbol, hsparams, -⟩ := exists_mem_mutateOnly hg active
  exact ⟨s, hs, hssymbol.trans hsymbol, (congrArg UInt32.toNat hsparams).trans hparams⟩

/-- **A program that is built can be built with any point mutated.** -/
theorem exists_builds_mutateOnly {image : Image} (h : c.Builds ms extra image)
    (active : Option Point) : ∃ single, c.Builds (mutateOnly active ms) extra single := by
  obtain ⟨hsound, hholds⟩ := Compilation.builds_iff.mp h
  have hnodup : ((c.programFunctions (mutateOnly active ms) extra).map
      CompiledFunction.symbol).Nodup := by
    rw [map_symbol_programFunctions_mutateOnly]
    exact hholds.nodup
  have hprovided : ∀ g ∈ c.programFunctions (mutateOnly active ms) extra, ∀ use ∈ g.uses,
      Provides (c.programFunctions (mutateOnly active ms) extra) use := by
    intro g hg use huse
    -- A mutated function uses no symbol that the function does not use.
    refine provides_mutateOnly ?_ active
    obtain ⟨id, m, hm, f, hf, rfl⟩ | hg := mem_programFunctions_mutateOnly.mp hg
    · exact hholds.provided _ (Compilation.mem_programFunctions.mpr (.inl ⟨id, m, hm, f, hf, rfl⟩))
        use (Function.uses_mutateIf c active id f huse)
    · exact hholds.provided g (Compilation.mem_programFunctions.mpr (.inr hg)) use huse
  refine ⟨_, Compilation.builds_ofFunctions ?_ hnodup hprovided⟩
  intro m hm
  obtain ⟨id, hid, rfl⟩ := List.mem_mapIdx.mp hm
  have hmodule := hsound _ (List.getElem_mem hid)
  constructor
  · rw [Module.functionNames, List.map_map]
    have hnames : Function.name ∘ Function.mutateIf active id = Function.name := by
      funext f
      exact Function.name_mutateIf
    rw [hnames]
    exact hmodule.nodup
  · intro f hf
    obtain ⟨g, hg, rfl⟩ := List.mem_map.mp hf
    exact (hmodule.functions g hg).mutateIf

end

/-! ## The program with all mutants -/

namespace Installed

section

variable {c : Compilation} {ms mutated : List Module} {points : List Point}
  {extra : List ObjectFile} (h : Installed ms points mutated) (hsound : ∀ m ∈ ms, m.Sound)
  (hdistinct : ((c.programFunctions ms extra).map CompiledFunction.symbol).Nodup)
  (d : Compilation) (hmangling : d.mangling = c.mangling) (selector : Option String)

include h hsound hdistinct hmangling

/-- Every function of the program with the active point mutated has a stand-in of its code in the
program with all mutants. -/
theorem exists_sameBody {g : CompiledFunction}
    (hg : g ∈ c.programFunctions (mutateOnly (Point.active? points selector) ms) extra) :
    ∃ s ∈ d.programFunctions mutated extra,
      s.symbol = standIn c.mangling points (Point.active? points selector) g.symbol ∧
        g.SameBody s := by
  obtain ⟨id, m, hm, f, hf, rfl⟩ | ⟨o, ho, hg⟩ := mem_programFunctions_mutateOnly.mp hg
  · obtain ⟨n, hn, name, hname, hsymbol⟩ := h.exists_standIn hsound hdistinct hm hf selector
    refine ⟨_, Compilation.mem_programFunctions.mpr (.inl ⟨id, n, hn, _, hname, rfl⟩), ?_,
      rfl, rfl, ?_⟩
    · rw [Compilation.function, Compilation.function, hmangling]
      dsimp only
      rw [Function.name_named, Function.name_mutateIf]
      exact hsymbol
    · rw [Compilation.function, Compilation.function, hmangling]
      rfl
  · -- A function of an object file is its own stand-in.
    have hnone : ∀ p ∈ points, c.mangling.mangle p.function ≠ g.symbol :=
      fun p hp => h.mangle_ne_of_mem_extra hsound hdistinct ho hg hp
    refine ⟨g, Compilation.mem_programFunctions.mpr (.inr ⟨o, ho, hg⟩), ?_, rfl, rfl, rfl⟩
    exact (standIn_of_forall_ne
      (fun p hactive => hnone p (Point.of_active?_eq_some hactive).1) hnone).symm

/-- Under its symbol stands the stand-in or a trampoline that chooses it. -/
theorem exists_entry_symbol (hids : (points.map Point.id).Nodup) {g : CompiledFunction}
    (hg : g ∈ c.programFunctions (mutateOnly (Point.active? points selector) ms) extra) :
    ∃ t ∈ d.programFunctions mutated extra, t.symbol = g.symbol ∧ t.params = g.params ∧
      (standIn c.mangling points (Point.active? points selector) g.symbol = g.symbol ∨
        ∃ pristine targets, t.code = [.dispatch pristine targets] ∧
          choice selector pristine targets =
            standIn c.mangling points (Point.active? points selector) g.symbol) := by
  -- Names of modules have their entry in the mutated module; object files are linked as they are.
  obtain ⟨id, m, hm, f, hf, rfl⟩ | ⟨o, ho, hg⟩ := mem_programFunctions_mutateOnly.mp hg
  · have hsymbol : (c.function id (f.mutateIf (Point.active? points selector) id)).symbol =
        c.mangling.mangle f.name := congrArg c.mangling.mangle Function.name_mutateIf
    obtain ⟨n, hn, t, ht, hname, hparams, hchoice⟩ :=
      h.exists_entry hsound hdistinct hids hm hf selector
    refine ⟨d.function id t, Compilation.mem_programFunctions.mpr (.inl ⟨id, n, hn, t, ht, rfl⟩),
      ?_, hparams.trans Function.params_mutateIf.symm, ?_⟩
    · rw [hsymbol, ← hname, ← hmangling]
      rfl
    · rw [hsymbol]
      refine hchoice.imp_right ?_
      rintro ⟨targets, hbody, hchosen⟩
      refine ⟨_, _, ?_, hchosen⟩
      rw [Compilation.function, hbody, hmangling]
      rfl
  · have hnone : ∀ p ∈ points, c.mangling.mangle p.function ≠ g.symbol :=
      fun p hp => h.mangle_ne_of_mem_extra hsound hdistinct ho hg hp
    refine ⟨g, Compilation.mem_programFunctions.mpr (.inr ⟨o, ho, hg⟩), rfl, rfl, .inl ?_⟩
    exact standIn_of_forall_ne
      (fun p hactive => hnone p (Point.of_active?_eq_some hactive).1) hnone

end

/-- The image with all mutants in the place of that in which only the active point is mutated. -/
def replacement {c : Compilation} {ms mutated : List Module} {points : List Point}
    {extra : List ObjectFile} {single image : Image} (h : Installed ms points mutated)
    (hids : (points.map Point.id).Nodup) (hsound : ∀ m ∈ ms, m.Sound) (setup : Setup)
    (hnever : setup.watchdog = .never)
    (hsingle : c.Builds (mutateOnly (Point.active? points setup.selector) ms) extra single)
    (himage : c.Builds mutated extra image) : Replacement :=
  have hholds := (Compilation.builds_iff.mp hsingle).2
  have hdistinct : ((c.programFunctions ms extra).map CompiledFunction.symbol).Nodup :=
    map_symbol_programFunctions_mutateOnly ▸ hholds.nodup
  { source := single
    target := image
    sourceFunctions :=
      c.programFunctions (mutateOnly (Point.active? points setup.selector) ms) extra
    targetFunctions := c.programFunctions mutated extra
    sourceSetup := setup
    targetSetup := setup
    standIn := standIn c.mangling points (Point.active? points setup.selector)
    covered := fun _ => True
    avoided := []
    source_holds := hholds
    target_holds := (Compilation.builds_iff.mp himage).2
    source_never := hnever
    target_never := hnever
    maxDepth_eq := rfl
    body := fun _ hg _ => h.exists_sameBody hsound hdistinct c rfl setup.selector hg
    entry := fun g hg => by
      obtain ⟨t, ht, hsymbol, hparams, hchoice⟩ :=
        h.exists_entry_symbol hsound hdistinct c rfl setup.selector hids hg
      exact ⟨t, ht, hsymbol, hparams, fun _ => hchoice⟩
    choice_eq := fun _ _ _ _ _ _ => rfl
    traced := fun _ _ hother => absurd trivial hother }

/-- **The image with all mutants runs every one of them as if it were the only one.** Take modules
that are built with further object files, and put points of distinct ids into them, such that the
result is built with the same object files. Whatever a selector is, there is an image in which only
the point that it makes active is mutated, and a call of any symbol of the program ends in the image
with all mutants exactly when it ends there: with the same output, and with the same value or the
same trap, up to the symbol of a copy in the place of that of its function. -/
theorem ends_iff_single {c : Compilation} {ms mutated : List Module} {points : List Point}
    {extra : List ObjectFile} {original image : Image} (h : Installed ms points mutated)
    (hids : (points.map Point.id).Nodup) (horiginal : c.Builds ms extra original)
    (himage : c.Builds mutated extra image) (selector : Option String) :
    ∃ single, c.Builds (mutateOnly (Point.active? points selector) ms) extra single ∧
      ∀ (symbol : String), (original.index? symbol).isSome →
      ∀ (arguments : List Int64) (maxDepth : Nat) (tracing : Bool) (e : Effects)
        (reply : Except Trap Int64) (stdout : String),
      Machine.Ends image { selector, maxDepth, tracing } symbol arguments e reply stdout ↔
        ∃ reply', Machine.Ends single { selector, maxDepth, tracing } symbol arguments e reply'
            stdout ∧
          reply = reply'.mapError
            (Trap.rename (standIn c.mangling points (Point.active? points selector))) := by
  obtain ⟨single, hsingle⟩ := exists_builds_mutateOnly horiginal (Point.active? points selector)
  refine ⟨single, hsingle, ?_⟩
  intro symbol hsymbol arguments maxDepth tracing e reply stdout
  obtain ⟨hsound, hholds⟩ := Compilation.builds_iff.mp horiginal
  let R := h.replacement hids hsound { selector, maxDepth, tracing } rfl hsingle himage
  -- The symbol is that of a function, also of the program with the active point mutated.
  obtain ⟨g, hg, rfl⟩ : ∃ g ∈ R.sourceFunctions, g.symbol = symbol := by
    rw [hholds.isSome_index?, ← map_symbol_programFunctions_mutateOnly] at hsymbol
    exact List.mem_map.mp hsymbol
  exact R.ends_iff rfl hg rfl

end Installed

namespace Example

/-- The example with both points in it. -/
def mutated : Module := ((Subject.ofModule 0 arithmetic).after calls).module

/-- The example as it is compiled for mutants. -/
def compilation : Compilation := { mangling := .native }

/-- The image of the example as it was loaded. -/
def original : Image := .ofFunctions (compilation.programFunctions [arithmetic] [])

/-- The image with both mutants. -/
def image : Image := .ofFunctions (compilation.programFunctions [mutated] [])

theorem installed : Installed [arithmetic] [addition, subtraction] [mutated] where
  length_eq := rfl
  module_lt := by decide
  calls := by
    rintro id m hm
    obtain ⟨rfl, rfl⟩ : id = 0 ∧ m = arithmetic := by
      cases id with
      | zero => exact ⟨rfl, (Option.some.inj hm).symm⟩
      | succ id => exact nomatch hm
    exact ⟨calls, by decide +kernel, by decide +kernel, rfl⟩

theorem builds_original : compilation.Builds [arithmetic] [] original :=
  Compilation.builds_ofFunctions (by decide +kernel) (by decide +kernel) (by decide +kernel)

theorem builds_image : compilation.Builds [mutated] [] image :=
  Compilation.builds_ofFunctions (by decide +kernel) (by decide +kernel) (by decide +kernel)

end Example

/-- `ends_iff_single` at a sum that becomes a difference. -/
theorem Installed.ends_iff_single_example :
    ∃ single,
      Example.compilation.Builds (mutateOnly (some Example.addition) [Example.arithmetic]) []
        single ∧
      Machine.Ends single { selector := some Example.addition.id } "main" [] {} (.ok 2) "" := by
  obtain ⟨single, hsingle, hends⟩ := Example.installed.ends_iff_single (by decide +kernel)
    Example.builds_original Example.builds_image (some Example.addition.id)
  have hactive : Point.active? [Example.addition, Example.subtraction]
      (some Example.addition.id) = some Example.addition := by
    decide +kernel
  rw [hactive] at hsingle hends
  have hmutant : Machine.Ends Example.image { selector := some Example.addition.id } "main" [] {}
      (.ok 2) "" := ⟨7, { steps := 7 }, by decide +kernel, rfl⟩
  obtain ⟨reply, hreply, heq⟩ :=
    (hends "main" (by decide +kernel) [] 512 false {} (.ok 2) "").mp hmutant
  cases reply with
  | error trap => exact nomatch heq
  | ok value =>
    obtain rfl := Except.ok.inj heq
    exact ⟨single, hsingle, hreply⟩

end MutationLab
