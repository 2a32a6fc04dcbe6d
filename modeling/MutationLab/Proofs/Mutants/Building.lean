import MutationLab.Proofs.Mutants.Naming
import MutationLab.Proofs.Mutation

/-! # Building a program with its mutants

Modules with mutants compile, because mutated functions and trampolines are sound
(`Module.sound_withMutants`), and everything that they use is provided among them
(`provided_withMutants`). Their names are the loaded ones and the derived ones. So a program with
its mutants links, unless another module or an object file defines a derived symbol
(`exists_clash_of_link_eq_error`). -/

namespace MutationLab

/-- A function is sound under any name. -/
theorem Function.Sound.named {f : Function} (h : f.Sound) (name : String) : (f.named name).Sound :=
  ⟨h.terminated, h.inside⟩

/-- The probes of a compilation have no part in what a function uses. -/
theorem Compilation.uses_eq {c d : Compilation} (h : c.mangling = d.mangling) (id : ModuleId)
    (f : Function) : (c.function id f).uses = (d.function id f).uses := by
  rw [CompiledFunction.uses, CompiledFunction.uses, function, function, h]

/-! ## Layouts -/

namespace Layout

variable {loaded : Module} {registered applied : List Point} {stage : Stage} {g : Function}

/-- A function of a layout is a loaded one, mutated and renamed, or a trampoline. -/
theorem of_mem_functions (h : g ∈ functions loaded registered applied stage) :
    (∃ f ∈ loaded.functions, ∃ mutant, f.MutatesTo mutant ∧ g = mutant.named g.name) ∨
      g ∈ trampolines loaded registered := by
  have hloaded : g ∈ loaded.functions →
      ∃ f ∈ loaded.functions, ∃ mutant, f.MutatesTo mutant ∧ g = mutant.named g.name :=
    fun hg => ⟨g, hg, g, .refl, rfl⟩
  have hcopies : g ∈ copies loaded registered applied →
      ∃ f ∈ loaded.functions, ∃ mutant, f.MutatesTo mutant ∧ g = mutant.named g.name := by
    intro hg
    rcases of_mem_copies hg with ⟨f, hf, -, rfl | ⟨p, -, -, rfl⟩⟩
    · exact ⟨f, hf, f, .refl, rfl⟩
    · exact ⟨f, hf, _, .iterate_mutate p _ f, rfl⟩
  have hexcised : g ∈ kept loaded registered ++ copies loaded registered applied →
      ∃ f ∈ loaded.functions, ∃ mutant, f.MutatesTo mutant ∧ g = mutant.named g.name := by
    intro hg
    rcases List.mem_append.mp hg with hg | hg
    · exact hloaded (List.mem_of_mem_filter hg)
    · exact hcopies hg
  -- Each stage joins some of the three: loaded functions, copies, trampolines.
  cases stage with
  | pristine => exact .inl (hloaded h)
  | registered => exact .inl (hloaded h)
  | cloned => exact .inl ((List.mem_append.mp h).elim hloaded hcopies)
  | excised => exact .inl (hexcised h)
  | redirected => exact (List.mem_append.mp h).imp_left hexcised
  | applied => exact (List.mem_append.mp h).imp_left hexcised

/-- **The functions of a layout are sound** if the loaded ones are. -/
theorem sound_of_mem_functions (hsound : ∀ f ∈ loaded.functions, f.Sound)
    (h : g ∈ functions loaded registered applied stage) : g.Sound := by
  rcases of_mem_functions h with ⟨f, hf, mutant, hmutant, hg⟩ | hg
  · rw [hg]
    exact (hmutant.sound (hsound f hf)).named _
  · -- A trampoline is a single instruction that does not jump.
    obtain ⟨f, -, -, rfl⟩ := of_mem_trampolines hg
    refine ⟨⟨_, rfl, rfl⟩, fun i hi target htarget => ?_⟩
    obtain rfl := List.mem_singleton.mp hi
    exact nomatch htarget

/-- A layout names no registers that the loaded functions do not name. -/
theorem exists_mem_registers_of_mem_functions (h : g ∈ functions loaded registered applied stage)
    {i : Instruction} (hi : i ∈ g.body) {r : Register} (hr : r ∈ i.operation.registers) :
    ∃ f ∈ loaded.functions, ∃ j ∈ f.body, r ∈ j.operation.registers := by
  rcases of_mem_functions h with ⟨f, hf, mutant, hmutant, hg⟩ | hg
  · rw [hg] at hi
    exact ⟨f, hf, hmutant.exists_mem_registers hi hr⟩
  · obtain ⟨f, -, -, rfl⟩ := of_mem_trampolines hg
    obtain rfl := List.mem_singleton.mp hi
    exact nomatch hr

end Layout

/-! ## One module -/

namespace Module

variable {m : Module} {points : List Point} (hfresh : Layout.Fresh m points)

include hfresh

/-- The names of a module with mutants are the loaded ones and the derived ones. -/
theorem functionNames_withMutants :
    (m.withMutants points).functionNames.Perm (m.functionNames ++ allDerivedNames points) := by
  refine (List.perm_ext_iff_of_nodup (hfresh.nodup_names .applied) hfresh.distinct).mpr ?_
  intro name
  rw [Layout.functions, List.map_append, List.map_append, hfresh.available.map_name_copies,
    hfresh.map_name_trampolines, List.mem_append, List.mem_append, List.mem_append]
  constructor
  · rintro ((hkept | hderived) | hmutated)
    · exact .inl (Layout.of_mem_map_name_kept hkept).1
    · exact .inr hderived
    · exact .inl (hfresh.available.mem_functionNames hmutated)
  · rintro (hname | hderived)
    · by_cases hmutated : name ∈ mutatedNames points
      · exact .inr hmutated
      · obtain ⟨f, hf, rfl⟩ := List.mem_map.mp hname
        exact .inl (.inl (List.mem_map_of_mem (Layout.mem_kept hf hmutated)))
    · exact .inl (.inr hderived)

/-- **A sound module is sound with its mutants.** -/
theorem sound_withMutants (hsound : m.Sound) : (m.withMutants points).Sound where
  nodup := hfresh.nodup_names .applied
  functions g hg := by
    have hlayout : g ∈ Layout.functions m points points .applied := hg
    exact Layout.sound_of_mem_functions hsound.functions hlayout

omit hfresh in
/-- Under the name of every function stands one that takes as many arguments. -/
theorem exists_mem_withMutants (points : List Point) (hnames : m.functionNames.Nodup) {f : Function}
    (hf : f ∈ m.functions) :
    ∃ g ∈ (m.withMutants points).functions, g.name = f.name ∧ g.params = f.params := by
  by_cases hmutated : f.name ∈ mutatedNames points
  · have hfind := (function?_eq_some_iff hnames).mpr ⟨hf, rfl⟩
    exact ⟨_, List.mem_append_right _ (Layout.mem_trampolines hmutated hfind), rfl, rfl⟩
  · exact ⟨f, List.mem_append_left _ (List.mem_append_left _ (Layout.mem_kept hf hmutated)),
      rfl, rfl⟩

end Module

/-! ## Programs -/

theorem getElem?_withMutants_of_getElem? {ms : List Module} (points : List Point) {id : ModuleId}
    {m : Module} (hm : ms[id]? = some m) :
    (withMutants ms points)[id]? = some (m.withMutants (pointsIn points id)) := by
  rw [getElem?_withMutants, hm]
  rfl

section

variable {c d : Compilation} (hmangling : c.mangling = d.mangling) {ms : List Module}
  {points : List Point} {extra : List ObjectFile}

/-- Sound modules are sound with their mutants. -/
theorem sound_of_mem_withMutants (hfresh : FreshNames ms points) (hsound : ∀ m ∈ ms, m.Sound)
    {m : Module} (hm : m ∈ withMutants ms points) : m.Sound := by
  obtain ⟨id, hid⟩ := List.mem_iff_getElem?.mp hm
  rw [getElem?_withMutants] at hid
  obtain ⟨loaded, hloaded, rfl⟩ := Option.map_eq_some_iff.mp hid
  have hmem : loaded ∈ ms := List.mem_of_getElem? hloaded
  exact Module.sound_withMutants (hfresh.fresh hloaded) (hsound loaded hmem)

/-- Copies of functions are provided under their names. -/
theorem provides_of_mem_copies {id : ModuleId} {m : Module}
    (hm : ms[id]? = some m) {g : Function}
    (hg : g ∈ Layout.copies m (pointsIn points id) (pointsIn points id)) :
    Provides (c.programFunctions (withMutants ms points) extra)
      (c.mangling.mangle g.name, g.params.toNat) := by
  have hm' := getElem?_withMutants_of_getElem? points hm
  have hmem : g ∈ (m.withMutants (pointsIn points id)).functions :=
    List.mem_append_left _ (List.mem_append_right _ hg)
  exact ⟨c.function id g,
    Compilation.mem_programFunctions.mpr (.inl ⟨id, _, hm', g, hmem, rfl⟩), rfl, rfl⟩

/-- A trampoline calls copies of the function for which it stands, and these are provided. -/
theorem provides_of_mem_trampolines (hnames : ∀ m ∈ ms, m.functionNames.Nodup) {id : ModuleId}
    {m : Module} (hm : ms[id]? = some m) {g : Function}
    (hg : g ∈ Layout.trampolines m (pointsIn points id)) {use : String × Nat}
    (huse : use ∈ (c.function id g).uses) :
    Provides (c.programFunctions (withMutants ms points) extra) use := by
  obtain ⟨f, hf, hmutated, rfl⟩ := Layout.of_mem_trampolines hg
  have hfind := (Module.function?_eq_some_iff
    (hnames m (List.mem_of_getElem? hm))).mpr ⟨hf, rfl⟩
  simp only [CompiledFunction.uses, Compilation.function, List.map_singleton,
    List.flatMap_singleton, Operation.lower, ObjectOperation.uses, List.mem_cons,
    List.mem_map] at huse
  obtain rfl | ⟨_, ⟨_, ⟨p, hp, rfl⟩, rfl⟩, rfl⟩ := huse
  · exact provides_of_mem_copies hm (Layout.mem_copies_pristine hmutated hfind)
  · obtain ⟨hp, hname⟩ := mem_pointsOn.mp hp
    rw [← hname] at hfind
    have hcopy : Provides (c.programFunctions (withMutants ms points) extra) _ :=
      provides_of_mem_copies hm (Layout.mem_copies_mutant hp hfind)
    rwa [Function.params_named, (Function.MutatesTo.iterate_mutate p _ f).params_eq] at hcopy

include hmangling

/-- Where every function of a program has one of its name and arity in another program, all that
the first one provides is provided in the other. -/
theorem provides_of_exists_mem {ns : List Module}
    (hmem : ∀ (id : ModuleId) (m : Module), ms[id]? = some m → ∀ f ∈ m.functions,
      ∃ n : Module, ns[id]? = some n ∧ ∃ g ∈ n.functions, g.name = f.name ∧ g.params = f.params)
    {use : String × Nat} (h : Provides (d.programFunctions ms extra) use) :
    Provides (c.programFunctions ns extra) use := by
  obtain ⟨g, hg, hsymbol, hparams⟩ := h
  obtain ⟨id, m, hm, f, hf, rfl⟩ | ⟨o, ho, hg⟩ := Compilation.mem_programFunctions.mp hg
  · obtain ⟨n, hn, g, hg, hname, hparams'⟩ := hmem id m hm f hf
    refine ⟨c.function id g, Compilation.mem_programFunctions.mpr (.inl ⟨id, n, hn, g, hg, rfl⟩),
      ?_, ?_⟩
    · rw [← hsymbol, Compilation.function, Compilation.function, hname, hmangling]
    · rw [← hparams, Compilation.function, Compilation.function, hparams']
  · exact ⟨g, Compilation.mem_programFunctions.mpr (.inr ⟨o, ho, hg⟩), hsymbol, hparams⟩

/-- What the loaded program provides is provided with mutants. -/
theorem provides_withMutants (hnames : ∀ m ∈ ms, m.functionNames.Nodup) {use : String × Nat}
    (h : Provides (d.programFunctions ms extra) use) :
    Provides (c.programFunctions (withMutants ms points) extra) use :=
  provides_of_exists_mem hmangling (fun id m hm _ hf =>
    ⟨_, getElem?_withMutants_of_getElem? points hm,
      Module.exists_mem_withMutants (pointsIn points id) (hnames m (List.mem_of_getElem? hm)) hf⟩) h

/-- What a function of a layout uses is provided with mutants, if the loaded program provides what
it uses itself. The points need not be applied. -/
theorem provides_of_mem_functions (hnames : ∀ m ∈ ms, m.functionNames.Nodup)
    (hprovided : ∀ f ∈ d.programFunctions ms extra, ∀ use ∈ f.uses,
      Provides (d.programFunctions ms extra) use)
    {id : ModuleId} {m : Module} (hm : ms[id]? = some m) {applied : List Point} {stage : Stage}
    {g : Function} (hg : g ∈ Layout.functions m (pointsIn points id) applied stage)
    {use : String × Nat} (huse : use ∈ (c.function id g).uses) :
    Provides (c.programFunctions (withMutants ms points) extra) use := by
  rcases Layout.of_mem_functions hg with ⟨f, hf, mutant, hmutant, hg⟩ | hg
  · -- What a loaded function uses is provided in the loaded program.
    rw [hg] at huse
    have hloaded : use ∈ (c.function id f).uses := hmutant.uses_subset c id huse
    rw [Compilation.uses_eq hmangling] at hloaded
    have hmem : d.function id f ∈ d.programFunctions ms extra :=
      Compilation.mem_programFunctions.mpr (.inl ⟨id, m, hm, f, hf, rfl⟩)
    exact provides_withMutants hmangling hnames (hprovided _ hmem use hloaded)
  · exact provides_of_mem_trampolines hnames hm hg huse

/-- **Everything that a program with mutants uses is provided in it**, if this was so before. -/
theorem provided_withMutants (points : List Point) (hnames : ∀ m ∈ ms, m.functionNames.Nodup)
    (hprovided : ∀ f ∈ d.programFunctions ms extra, ∀ use ∈ f.uses,
      Provides (d.programFunctions ms extra) use) :
    ∀ f ∈ c.programFunctions (withMutants ms points) extra, ∀ use ∈ f.uses,
      Provides (c.programFunctions (withMutants ms points) extra) use := by
  intro g hg use huse
  obtain ⟨id, n, hn, g, hg, rfl⟩ | ⟨o, ho, hg⟩ := Compilation.mem_programFunctions.mp hg
  · rw [getElem?_withMutants] at hn
    obtain ⟨m, hm, rfl⟩ := Option.map_eq_some_iff.mp hn
    have hlayout : g ∈ Layout.functions m (pointsIn points id) (pointsIn points id) .applied := hg
    exact provides_of_mem_functions hmangling hnames hprovided hm hlayout huse
  · have hmem : g ∈ d.programFunctions ms extra :=
      Compilation.mem_programFunctions.mpr (.inr ⟨o, ho, hg⟩)
    exact provides_withMutants hmangling hnames (hprovided g hmem use huse)

end

/-! ## Symbols -/

/-- The symbols of a program are those of the names in its modules and those of its object files. -/
theorem Compilation.map_symbol_programFunctions (c : Compilation) (ms : List Module)
    (extra : List ObjectFile) :
    (c.programFunctions ms extra).map CompiledFunction.symbol =
      (ms.flatMap Module.functionNames).map c.mangling.mangle ++
        (extra.flatMap ObjectFile.functions).map CompiledFunction.symbol := by
  have hnames : ∀ first, (ms.zipIdx first).flatMap (fun entry =>
      (entry.1.functions.map (c.function entry.2)).map CompiledFunction.symbol) =
        (ms.flatMap Module.functionNames).map c.mangling.mangle := by
    induction ms with
    | nil => exact fun _ => rfl
    | cons m ms ih =>
      intro first
      rw [List.zipIdx_cons, List.flatMap_cons, ih, List.flatMap_cons, List.map_append,
        Module.functionNames, List.map_map, List.map_map]
      rfl
  rw [programFunctions, List.map_append, List.map_flatMap, hnames]

/-- All derived names of points, module by module. -/
def programDerivedNames (ms : List Module) (points : List Point) : List String :=
  ms.zipIdx.flatMap fun entry => allDerivedNames (pointsIn points entry.2)

/-- The names of a program, module by module. -/
theorem flatMap_functionNames_eq (ms : List Module) :
    ms.flatMap Module.functionNames = ms.zipIdx.flatMap fun entry => entry.1.functionNames := by
  have hfst : ms.zipIdx.map Prod.fst = ms := List.zipIdx_map_fst 0 ms
  rw [← List.flatMap_map Prod.fst Module.functionNames, hfst]

section

variable {ms : List Module} {points : List Point} (hfresh : FreshNames ms points)

include hfresh

/-- The names of a program with mutants are the loaded ones and the derived ones. -/
theorem functionNames_withMutants :
    ((withMutants ms points).flatMap Module.functionNames).Perm
      (ms.flatMap Module.functionNames ++ programDerivedNames ms points) := by
  rw [withMutants, List.mapIdx_eq_zipIdx_map, List.flatMap_map, flatMap_functionNames_eq,
    programDerivedNames]
  have hmodule : ∀ entry ∈ ms.zipIdx,
      (entry.1.withMutants (pointsIn points entry.2)).functionNames.Perm
        (entry.1.functionNames ++ allDerivedNames (pointsIn points entry.2)) :=
    fun entry hentry => Module.functionNames_withMutants (hfresh entry hentry)
  exact (List.Perm.flatMap_left _ hmodule).trans (List.flatMap_append_perm _ _ _).symm

/-- If no name is defined in two modules, no derived name is derived in two. -/
theorem nodup_programDerivedNames (hdistinct : (ms.flatMap Module.functionNames).Nodup) :
    (programDerivedNames ms points).Nodup := by
  rw [flatMap_functionNames_eq, List.nodup_flatMap] at hdistinct
  refine List.nodup_flatMap.mpr
    ⟨fun entry hentry => (hfresh entry hentry).available.nodup, ?_⟩
  refine hdistinct.2.imp_of_mem fun {a b} ha hb hdisjoint derived hderived hother => ?_
  -- A derived name belongs to one function, and that is defined in one module.
  obtain ⟨name, hname, hderived⟩ := List.mem_flatMap.mp hderived
  obtain ⟨name', hname', hother⟩ := List.mem_flatMap.mp hother
  obtain rfl := eq_of_mem_derivedNames (fun p hp => (mem_pointsOn.mp hp).2)
    (fun q hq => (mem_pointsOn.mp hq).2) hderived hother
  exact hdisjoint ((hfresh a ha).available.mem_functionNames hname)
    ((hfresh b hb).available.mem_functionNames hname')

/-- **A symbol that is defined twice in a program with mutants** is derived from a point, and
another module or an object file defines it. -/
theorem exists_clash_of_two_le_count {c d : Compilation} (hmangling : c.mangling = d.mangling)
    {extra : List ObjectFile} {symbol : String}
    (hdistinct : ((d.programFunctions ms extra).map CompiledFunction.symbol).Nodup)
    (htwice : 2 ≤ ((c.programFunctions (withMutants ms points) extra).map
      CompiledFunction.symbol).count symbol) :
    ∃ p ∈ points, ∃ derived ∈ derivedNames p.function [p], c.mangling.mangle derived = symbol ∧
      ((∃ id m, ms[id]? = some m ∧ id ≠ p.module ∧ derived ∈ m.functionNames) ∨
        ∃ o ∈ extra, symbol ∈ o.functions.map CompiledFunction.symbol) := by
  have hloaded := d.map_symbol_programFunctions ms extra
  have hmutated := c.map_symbol_programFunctions (withMutants ms points) extra
  rw [hloaded] at hdistinct
  rw [hmutated, hmangling] at htwice
  have hcount := ((functionNames_withMutants hfresh).map d.mangling.mangle).count_eq symbol
  rw [List.map_append, List.count_append] at hcount
  rw [List.count_append, hcount] at htwice
  have hnames : (ms.flatMap Module.functionNames).Nodup :=
    List.Nodup.of_map _ (List.nodup_append.mp hdistinct).1
  have hderived : ((programDerivedNames ms points).map d.mangling.mangle).count symbol ≤ 1 :=
    List.nodup_iff_count_le_one.mp
      ((nodup_programDerivedNames hfresh hnames).map fun _ _ => d.mangling.mangle_injective) symbol
  have hbefore := List.nodup_iff_count_le_one.mp hdistinct symbol
  rw [List.count_append] at hbefore
  -- So it is a derived symbol, and a symbol of the program as it was loaded.
  have hmem : symbol ∈ (programDerivedNames ms points).map d.mangling.mangle :=
    List.count_pos_iff.mp (by omega)
  obtain ⟨derived, hderived', rfl⟩ := List.mem_map.mp hmem
  obtain ⟨id, m, hm, hown⟩ := mem_flatMap_zipIdx.mp hderived'
  obtain ⟨p, hp, hpderived⟩ := exists_of_mem_allDerivedNames hown
  obtain ⟨hpoint, rfl⟩ := mem_pointsIn.mp hp
  refine ⟨p, hpoint, derived, hpderived, by rw [hmangling], ?_⟩
  by_cases hname : derived ∈ ms.flatMap Module.functionNames
  · -- The module of the point does not define it, because it is fresh there.
    obtain ⟨n, hn, hdefined⟩ := List.mem_flatMap.mp hname
    obtain ⟨other, hother⟩ := List.mem_iff_getElem?.mp hn
    refine .inl ⟨other, n, hother, ?_, hdefined⟩
    rintro rfl
    obtain rfl := Option.some.inj (hm.symm.trans hother)
    exact (hfresh.fresh hm).available.free _ hown hdefined
  · have hnone : ((ms.flatMap Module.functionNames).map d.mangling.mangle).count
        (d.mangling.mangle derived) = 0 := by
      refine List.count_eq_zero.mpr fun hmem => hname ?_
      exact (List.mem_map_of_injective fun _ _ => d.mangling.mangle_injective).mp hmem
    have hsymbol : d.mangling.mangle derived ∈
        (extra.flatMap ObjectFile.functions).map CompiledFunction.symbol :=
      List.count_pos_iff.mp (by omega)
    rw [List.map_flatMap, List.mem_flatMap] at hsymbol
    exact .inr hsymbol

/-- The symbols of a program are still there when it has its mutants. -/
theorem isSome_index?_withMutants {c d : Compilation} (hmangling : c.mangling = d.mangling)
    {extra : List ObjectFile} {original image : Image} (horiginal : d.Builds ms extra original)
    (himage : c.Builds (withMutants ms points) extra image) {symbol : String}
    (h : (original.index? symbol).isSome) : (image.index? symbol).isSome := by
  rw [(Compilation.builds_iff.mp horiginal).2.isSome_index?, d.map_symbol_programFunctions,
    List.mem_append] at h
  rw [(Compilation.builds_iff.mp himage).2.isSome_index?, c.map_symbol_programFunctions, hmangling,
    List.mem_append]
  refine h.imp_left fun hname => ?_
  exact ((functionNames_withMutants hfresh).map _).mem_iff.mpr
    (List.map_subset _ (List.subset_append_left _ _) hname)

/-- **A program with mutants links**, unless another module or an object file defines a derived
symbol. -/
theorem exists_clash_of_link_eq_error {c d : Compilation} (hmangling : c.mangling = d.mangling)
    {extra objects : List ObjectFile} {original : Image} {e : LinkError}
    (horiginal : d.Builds ms extra original)
    (hobjects : c.compileAll 0 (withMutants ms points) = .ok objects)
    (h : Image.link (objects ++ extra) = .error e) :
    ∃ symbol first second, e = .duplicateSymbol symbol first second ∧
      ∃ p ∈ points, ∃ derived ∈ derivedNames p.function [p], c.mangling.mangle derived = symbol ∧
        ((∃ id m, ms[id]? = some m ∧ id ≠ p.module ∧ derived ∈ m.functionNames) ∨
          ∃ o ∈ extra, symbol ∈ o.functions.map CompiledFunction.symbol) := by
  obtain ⟨hsound, hholds⟩ := Compilation.builds_iff.mp horiginal
  have hprovided := provided_withMutants hmangling points (fun m hm => (hsound m hm).nodup)
    hholds.provided
  have hfunctions : (objects ++ extra).flatMap ObjectFile.functions =
      c.programFunctions (withMutants ms points) extra :=
    Compilation.flatMap_functions_of_compileAll hobjects
  rw [← hfunctions] at hprovided
  obtain ⟨symbol, first, second, rfl, htwice⟩ := Image.link_eq_error_of_provided hprovided h
  rw [hfunctions] at htwice
  exact ⟨symbol, first, second, rfl,
    exists_clash_of_two_le_count hfresh hmangling hholds.nodup htwice⟩

end

end MutationLab
