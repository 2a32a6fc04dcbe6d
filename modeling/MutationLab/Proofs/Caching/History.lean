import MutationLab.Proofs.Caching.Entries
import MutationLab.Proofs.Compilation
import MutationLab.Toolchain

/-! # The cache is transparent

A cache goes through steps: modules are compiled with it, and entries are overwritten by others with
what is no object file for their name. In a directory that was empty at first, every entry that is
loaded is what the module compiles to (`CacheStep.Trusted`). So compiling with the cache returns
what compiling without it returns, whatever the history (`ObjectCache.transparent`). -/

namespace MutationLab

/-! ## Compiling with a cache -/

namespace Compilation

/-- An object file without probes is marked with the hash of its module and as plain. -/
theorem marks_of_compile {mangling : Mangling} {id : ModuleId} {m : Module} {o : ObjectFile}
    (h : compile { mangling } id m = .ok o) :
    o.sourceHash = m.contentHash ∧ o.instrumented = false := by
  obtain ⟨-, rfl⟩ := compile_eq_ok_iff.mp h
  exact ⟨rfl, rfl⟩

/-- Without probes it does not matter which module of a program it is. -/
theorem compile_of_compile {mangling : Mangling} {id : ModuleId} {m : Module} {o : ObjectFile}
    (h : compile { mangling } id m = .ok o) (other : ModuleId) :
    compile { mangling } other m = .ok o := by
  obtain ⟨hsound, rfl⟩ := compile_eq_ok_iff.mp h
  exact compile_eq_ok_iff.mpr ⟨hsound, rfl⟩

end Compilation

namespace Toolchain

variable {mangling : Mangling} {cache : ObjectCache} {s : Subject} {files : FileTree}

/-- Without probes, modules are compiled through the cache. -/
theorem compile_none : compile { mangling, cache := some cache } none s files =
    compileCached { mangling, cache := some cache } cache s files := rfl

/-- What is loaded is returned. -/
theorem compile_of_hit {o : ObjectFile} (h : cache.load files s.currentHash mangling = some o) :
    compile { mangling, cache := some cache } none s files =
      { object := .ok o
        messages := [⟨.debug, s!"Object cache hit for {s.module.name}"⟩]
        files } := by
  rw [compile_none, compileCached, h]

/-- What does not compile is not kept. -/
theorem compile_of_error (hmiss : cache.load files s.currentHash mangling = none) {e : CompileError}
    (herror : Compilation.compile { mangling } s.id s.module = .error e) :
    compile { mangling, cache := some cache } none s files = { object := .error e, files } := by
  rw [compile_none, compileCached, hmiss]
  dsimp only
  rw [herror]

/-- What is not loaded is compiled and kept. -/
theorem compile_of_miss {place : Place} (hready : cache.Ready files place)
    (hmiss : cache.load files s.currentHash mangling = none) {o : ObjectFile}
    (hok : Compilation.compile { mangling } s.id s.module = .ok o) {files' : FileTree}
    (hwrite : files.write (cache.path s.currentHash mangling) o.toBytes = some files') :
    compile { mangling, cache := some cache } none s files =
      { object := .ok o, files := files' } := by
  obtain ⟨hhash, hplain⟩ := Compilation.marks_of_compile hok
  rw [Subject.currentHash, ← hhash] at hwrite
  rw [compile_none, compileCached, hmiss]
  dsimp only
  rw [hok]
  dsimp only
  rw [hready.store_eq hplain hwrite]

/-- Compiling with probes leaves the files alone, and so does compiling that fails. -/
theorem files_compile {probes : Option Probes} (h : probes.isSome = true ∨
    ∃ e, Compilation.compile { mangling, probes } s.id s.module = .error e) :
    (compile { mangling, cache := some cache } probes s files).files = files := by
  cases probes with
  | some probes => rfl
  | none =>
    obtain ⟨e, herror⟩ := h.resolve_left Bool.false_ne_true
    cases hload : cache.load files s.currentHash mangling with
    | some o => rw [compile_of_hit hload]
    | none => rw [compile_of_error hload herror]

end Toolchain

/-! ## Steps -/

/-- A step in the life of a cache. -/
inductive CacheStep where
  /-- A module is compiled, with probes or without. -/
  | compile (mangling : Mangling) (probes : Option Probes) (subject : Subject)
  /-- The entry of a module is overwritten. -/
  | overwrite (mangling : Mangling) (module : Module) (content : List UInt8)
  deriving DecidableEq

namespace CacheStep

/-- The module whose entry is used. -/
def module : CacheStep → Module
  | compile _ _ s => s.module
  | overwrite _ m _ => m

/-- The mangling for which it is used. -/
def mangling : CacheStep → Mangling
  | compile mangling .. | overwrite mangling .. => mangling

/-- The path of the entry. -/
def path (cache : ObjectCache) (step : CacheStep) : String :=
  cache.path step.module.contentHash step.mangling

/-- What is loaded from the entry. -/
def load (cache : ObjectCache) (files : FileTree) (step : CacheStep) : Option ObjectFile :=
  cache.load files step.module.contentHash step.mangling

/-- The files behind a step. -/
def files (cache : ObjectCache) (before : FileTree) : CacheStep → FileTree
  | compile mangling probes s =>
      (Toolchain.compile { mangling, cache := some cache } probes s before).files
  | overwrite mangling m content =>
      (before.write (cache.path m.contentHash mangling) content).getD before

/-- The files behind several steps. -/
def run (cache : ObjectCache) (before : FileTree) (steps : List CacheStep) : FileTree :=
  steps.foldl (files cache) before

/-- A step that can be expected: the lengths in a compiled module fit into 64 bits, and what an
entry is overwritten with is no object file without probes for its module. -/
def Admissible : CacheStep → Prop
  | compile mangling _ s =>
      ∀ o, Compilation.compile { mangling } s.id s.module = .ok o → o.Fits
  | overwrite _ m content =>
      ∀ o, ObjectFile.ofBytes? content = some o →
        ¬ (o.sourceHash = m.contentHash ∧ o.instrumented = false)

instance : DecidablePred Admissible
  | compile mangling _ s =>
      match h : Compilation.compile { mangling } s.id s.module with
      | .error _ => .isTrue fun _ ho => nomatch h.symm.trans ho
      | .ok o => decidable_of_iff o.Fits
          ⟨fun hfits _ ho => Except.ok.inj (h.symm.trans ho) ▸ hfits, fun hall => hall o h⟩
  | overwrite _ m content =>
      match h : ObjectFile.ofBytes? content with
      | none => .isTrue fun _ ho => nomatch h.symm.trans ho
      | some o => decidable_of_iff (¬ (o.sourceHash = m.contentHash ∧ o.instrumented = false))
          ⟨fun hmarks _ ho => Option.some.inj (h.symm.trans ho) ▸ hmarks, fun hall => hall o h⟩

/-- Hashes tell the modules and the manglings of steps apart. -/
structure Separated (steps : List CacheStep) : Prop where
  modules : ∀ a ∈ steps, ∀ b ∈ steps,
    a.module.contentHash = b.module.contentHash → a.module = b.module
  manglings : ∀ a ∈ steps, ∀ b ∈ steps,
    Hash.ofText a.mangling.lead = Hash.ofText b.mangling.lead → a.mangling = b.mangling

/-! ## What a step does -/

/-- **A step leaves the files alone or writes its entry**: the object file of a module that could
not be loaded, or what the entry is overwritten with. -/
theorem files_cases {cache : ObjectCache} {before : FileTree} {place : Place}
    (hready : cache.Ready before place) (step : CacheStep) :
    (step.files cache before = before ∧
        ∀ mangling m content, step ≠ .overwrite mangling m content) ∨
      ∃ content, before.write (step.path cache) content = some (step.files cache before) ∧
        ((step.load cache before = none ∧
            ∃ id o, Compilation.compile { mangling := step.mangling } id step.module = .ok o ∧
              (step.Admissible → o.Fits) ∧ content = o.toBytes) ∨
          step = .overwrite step.mangling step.module content) := by
  -- Only a miss without probes that compiles writes something, and so does overwriting.
  cases step with
  | overwrite mangling m content =>
    obtain ⟨after, hwrite⟩ := hready.exists_write m mangling content
    refine .inr ⟨content, ?_, .inr rfl⟩
    rw [files, hwrite]
    exact hwrite
  | compile mangling probes s =>
    cases probes with
    | some probes => exact .inl ⟨rfl, nofun⟩
    | none =>
      cases hload : cache.load before s.currentHash mangling with
      | some o =>
        refine .inl ⟨?_, nofun⟩
        rw [files, Toolchain.compile_of_hit hload]
      | none =>
        cases hcompile : Compilation.compile { mangling } s.id s.module with
        | error e =>
          refine .inl ⟨?_, nofun⟩
          rw [files, Toolchain.compile_of_error hload hcompile]
        | ok o =>
          obtain ⟨after, hwrite⟩ := hready.exists_write s.module mangling o.toBytes
          refine .inr ⟨_, ?_, .inl ⟨hload, s.id, o, hcompile, fun h => h o hcompile, rfl⟩⟩
          rw [files, Toolchain.compile_of_miss hready hload hcompile hwrite]
          exact hwrite

/-! ## What is loaded can be trusted -/

/-- The directory is ready, and what is loaded for a step is what its module compiles to. -/
structure Trusted (cache : ObjectCache) (place : Place) (steps : List CacheStep)
    (files : FileTree) : Prop where
  ready : cache.Ready files place
  loaded : ∀ step ∈ steps, ∀ o, step.load cache files = some o →
    ∀ id, Compilation.compile { mangling := step.mangling } id step.module = .ok o

section

variable {cache : ObjectCache} {place : Place} {steps : List CacheStep} {before : FileTree}
  {step other : CacheStep}

/-- Where the bytes of an entry stay, what is loaded from it stays. -/
theorem load_congr {after : FileTree}
    (h : after.read (other.path cache) = before.read (other.path cache)) :
    other.load cache after = other.load cache before := by
  rw [path] at h
  rw [load, load, ObjectCache.load, ObjectCache.load, ObjectFile.readFrom, ObjectFile.readFrom, h]

/-- What is loaded from an entry with given bytes. -/
theorem load_eq_some_iff {content : List UInt8} (h : before.read (step.path cache) = some content)
    {o : ObjectFile} : step.load cache before = some o ↔
      ObjectFile.ofBytes? content = some o ∧
        o.sourceHash = step.module.contentHash ∧ o.instrumented = false := by
  rw [path] at h
  rw [load, ObjectCache.load_eq_some_iff, ObjectFile.readFrom_eq_ok_iff, h]
  simp

/-- **An entry that is written belongs to no other step.** -/
theorem read_of_ne (hseparated : Separated steps) (hready : cache.Ready before place)
    (hstep : step ∈ steps) (hother : other ∈ steps) {content : List UInt8} {after : FileTree}
    (hwrite : before.write (step.path cache) content = some after)
    (hne : ¬ (other.module = step.module ∧ other.mangling = step.mangling)) :
    after.read (other.path cache) = before.read (other.path cache) := by
  refine hready.read_write_of_ne hwrite ?_
  rintro ⟨hhash, hlead⟩
  exact hne ⟨hseparated.modules _ hother _ hstep hhash,
    hseparated.manglings _ hother _ hstep hlead⟩

/-- **A step keeps the cache trusted.** -/
theorem Trusted.behind_step (h : Trusted cache place steps before) (hseparated : Separated steps)
    (hstep : step ∈ steps) (hadmissible : step.Admissible) :
    Trusted cache place steps (step.files cache before) := by
  obtain ⟨hsame, -⟩ | ⟨content, hwrite, hcontent⟩ := files_cases h.ready step
  · rw [hsame]
    exact h
  · refine ⟨h.ready.write hwrite, fun other hother o hload => ?_⟩
    by_cases heq : other.module = step.module ∧ other.mangling = step.mangling
    · -- The entry holds what the step has written.
      have hpath : other.path cache = step.path cache := by rw [path, path, heq.1, heq.2]
      have hread := FileTree.read_write hwrite
      rw [← hpath] at hread
      obtain ⟨hbytes, hmarks⟩ := (load_eq_some_iff hread).mp hload
      rw [heq.1, heq.2]
      obtain ⟨-, id, compiled, hcompile, hfits, rfl⟩ | hoverwrite := hcontent
      · -- Bytes tell the object file, so what is loaded is what was compiled.
        obtain rfl : compiled = o := Option.some.inj
          ((ObjectFile.ofBytes?_eq_some_iff.mpr ⟨hfits hadmissible, List.prefix_rfl⟩).symm.trans
            hbytes)
        exact Compilation.compile_of_compile hcompile
      · rw [heq.1] at hmarks
        rw [hoverwrite] at hadmissible
        exact absurd hmarks (hadmissible o hbytes)
    · -- The step has written another entry.
      rw [load_congr (read_of_ne hseparated h.ready hstep hother hwrite heq)] at hload
      exact h.loaded other hother o hload

/-- **An entry that is loaded stays until it is overwritten.** -/
theorem load_step (h : Trusted cache place steps before) (hseparated : Separated steps)
    (hstep : step ∈ steps) (hother : other ∈ steps) {o : ObjectFile}
    (hload : other.load cache before = some o)
    (hne : ∀ content, step ≠ .overwrite other.mangling other.module content) :
    other.load cache (step.files cache before) = some o := by
  obtain ⟨hsame, -⟩ | ⟨content, hwrite, hcontent⟩ := files_cases h.ready step
  · rw [hsame]
    exact hload
  · by_cases heq : other.module = step.module ∧ other.mangling = step.mangling
    · -- A module is compiled only if its entry cannot be loaded.
      obtain ⟨hmiss, -⟩ | hoverwrite := hcontent
      · rw [load, heq.1, heq.2] at hload
        rw [load, hload] at hmiss
        exact nomatch hmiss
      · rw [heq.1, heq.2] at hne
        exact absurd hoverwrite (hne content)
    · rw [load_congr (read_of_ne hseparated h.ready hstep hother hwrite heq)]
      exact hload

/-- **What every step keeps while the cache is trusted, steps keep.** -/
theorem Trusted.run_keeps {P : FileTree → Prop} (h : Trusted cache place steps before)
    (hseparated : Separated steps) {more : List CacheStep} (hmore : more ⊆ steps)
    (hadmissible : ∀ step ∈ more, step.Admissible)
    (hstep : ∀ {step files}, step ∈ more → Trusted cache place steps files → P files →
      P (step.files cache files))
    (hbefore : P before) :
    Trusted cache place steps (run cache before more) ∧ P (run cache before more) := by
  -- By induction on the steps that are left; each one keeps the cache trusted.
  induction more generalizing before with
  | nil => exact ⟨h, hbefore⟩
  | cons step more ih =>
    obtain ⟨hmem, hmore⟩ := List.cons_subset.mp hmore
    obtain ⟨hfirst, hrest⟩ := List.forall_mem_cons.mp hadmissible
    exact ih (h.behind_step hseparated hmem hfirst) hmore hrest
      (fun hlater => hstep (List.mem_cons_of_mem _ hlater)) (hstep List.mem_cons_self h hbefore)

/-- Steps keep the cache trusted. -/
theorem Trusted.run (h : Trusted cache place steps before) (hseparated : Separated steps)
    {more : List CacheStep} (hmore : more ⊆ steps) (hadmissible : ∀ step ∈ more, step.Admissible) :
    Trusted cache place steps (run cache before more) :=
  (h.run_keeps hseparated hmore hadmissible (P := fun _ => True) (fun _ _ _ => trivial) trivial).1

/-- An entry that is loaded stays behind steps that do not overwrite it. -/
theorem load_run (h : Trusted cache place steps before) (hseparated : Separated steps)
    {more : List CacheStep} (hmore : more ⊆ steps) (hadmissible : ∀ step ∈ more, step.Admissible)
    (hother : other ∈ steps) {o : ObjectFile} (hload : other.load cache before = some o)
    (hne : ∀ content, .overwrite other.mangling other.module content ∉ more) :
    other.load cache (run cache before more) = some o := by
  refine (h.run_keeps (P := fun files => other.load cache files = some o) hseparated hmore
    hadmissible (fun {step files} hmem hfiles hloaded => ?_) hload).2
  refine load_step hfiles hseparated (hmore hmem) hother hloaded fun content heq => ?_
  exact hne content (heq ▸ hmem)

end

/-! ## What compiling with a trusted cache returns -/

section

variable {cache : ObjectCache} {place : Place} {steps : List CacheStep} {before : FileTree}
  {mangling : Mangling} {s : Subject} (h : Trusted cache place steps before)

include h

/-- The object file, or the error, is what compiling without a cache returns. -/
theorem Trusted.object_compile {probes : Option Probes}
    (hstep : .compile mangling probes s ∈ steps) :
    (Toolchain.compile { mangling, cache := some cache } probes s before).object =
      Compilation.compile { mangling, probes } s.id s.module := by
  cases probes with
  | some probes => rfl
  | none =>
    cases hload : cache.load before s.currentHash mangling with
    | some o =>
      -- The invariant is what makes a hit as good as compiling.
      rw [Toolchain.compile_of_hit hload]
      exact (h.loaded _ hstep o hload s.id).symm
    | none =>
      cases hcompile : Compilation.compile { mangling } s.id s.module with
      | error e => rw [Toolchain.compile_of_error hload hcompile]
      | ok o =>
        obtain ⟨after, hwrite⟩ := h.ready.exists_write s.module mangling o.toBytes
        rw [Toolchain.compile_of_miss h.ready hload hcompile hwrite]

/-- Behind a module that was compiled without probes, its entry is loaded. -/
theorem Trusted.load_compile (hstep : .compile mangling none s ∈ steps)
    (hadmissible : (compile mangling none s).Admissible) {o : ObjectFile}
    (hcompile : Compilation.compile { mangling } s.id s.module = .ok o) :
    (compile mangling none s).load cache
      (Toolchain.compile { mangling, cache := some cache } none s before).files = some o := by
  cases hload : cache.load before s.currentHash mangling with
  | some loaded =>
    have hloaded : .ok loaded = Except.ok o :=
      (h.loaded _ hstep loaded hload s.id).symm.trans hcompile
    rw [Toolchain.compile_of_hit hload, ← Except.ok.inj hloaded]
    exact hload
  | none =>
    obtain ⟨after, hwrite⟩ := h.ready.exists_write s.module mangling o.toBytes
    rw [Toolchain.compile_of_miss h.ready hload hcompile hwrite]
    have hread : after.read ((compile mangling none s).path cache) = some o.toBytes :=
      FileTree.read_write hwrite
    have hbytes := ObjectFile.ofBytes?_eq_some_iff.mpr
      ⟨hadmissible o hcompile, List.prefix_rfl (l := o.toBytes)⟩
    exact (load_eq_some_iff hread).mpr ⟨hbytes, Compilation.marks_of_compile hcompile⟩

end

end CacheStep

/-- A fresh cache can be trusted. -/
theorem ObjectCache.Fresh.trusted {cache : ObjectCache} {files : FileTree} (h : cache.Fresh files)
    (steps : List CacheStep) : ∃ place, CacheStep.Trusted cache place steps files := by
  obtain ⟨place, hready, hnone⟩ := h.ready
  refine ⟨place, hready, fun step _ o hload => ?_⟩
  rw [CacheStep.load, load_eq_some_iff, ObjectFile.readFrom_eq_ok_iff, hnone] at hload
  obtain ⟨⟨_, ⟨⟩, _⟩, _⟩ := hload

/-- **The cache is transparent.** It starts in an empty directory and goes through any steps whose
hashes tell modules and manglings apart. A module that is compiled on the way comes out as without
the cache, be it an object file or an error. With probes, or if there is an error, the files stay.
Without probes, the entry behind the step is the object file; as long as it is not overwritten, the
module is loaded from the cache when it is compiled again. -/
theorem ObjectCache.transparent {cache : ObjectCache} {files : FileTree}
    (hfresh : cache.Fresh files) {steps : List CacheStep} (hseparated : CacheStep.Separated steps)
    (hadmissible : ∀ step ∈ steps, step.Admissible) {before after : List CacheStep}
    {mangling : Mangling} {probes : Option Probes} {s : Subject}
    (hsteps : steps = before ++ .compile mangling probes s :: after) {compiled : Toolchain.Compiled}
    (hcompiled : Toolchain.compile { mangling, cache := some cache } probes s
      (CacheStep.run cache files before) = compiled) :
    compiled.object = Compilation.compile { mangling, probes } s.id s.module ∧
    ((probes.isSome = true ∨ ∃ e, compiled.object = .error e) →
      compiled.files = CacheStep.run cache files before) ∧
    ∀ o, probes = none → compiled.object = .ok o →
      ObjectFile.readFrom compiled.files (cache.path s.currentHash mangling) = .ok o ∧
      ∀ between again rest, after = between ++ .compile mangling none again :: rest →
        again.module = s.module → (∀ content, .overwrite mangling s.module content ∉ between) →
        Toolchain.compile { mangling, cache := some cache } none again
            (CacheStep.run cache compiled.files between) =
          { object := .ok o
            messages := [⟨.debug, s!"Object cache hit for {again.module.name}"⟩]
            files := CacheStep.run cache compiled.files between } := by
  obtain ⟨place, htrusted⟩ := hfresh.trusted steps
  have hbefore : before ⊆ steps := hsteps ▸ List.subset_append_left ..
  have hstep : .compile mangling probes s ∈ steps :=
    hsteps ▸ List.mem_append_right _ List.mem_cons_self
  have hafter : after ⊆ steps :=
    hsteps ▸ List.Subset.trans (List.subset_cons_self ..) (List.subset_append_right ..)
  have htrusted := htrusted.run hseparated hbefore fun step h => hadmissible step (hbefore h)
  have hobject := htrusted.object_compile hstep
  rw [hcompiled] at hobject
  -- What is left: the files behind an error or probes, and the entry behind an object file.
  refine ⟨hobject, ?_, ?_⟩
  · intro hcase
    rw [hobject] at hcase
    rw [← hcompiled]
    exact Toolchain.files_compile hcase
  · rintro o rfl ho
    have hload := htrusted.load_compile hstep (hadmissible _ hstep) (hobject.symm.trans ho)
    rw [hcompiled] at hload
    refine ⟨(load_eq_some_iff.mp hload).1, ?_⟩
    intro between again rest hbetween hmodule hkept
    have hsubset : between ⊆ steps := fun step h =>
      hafter (hbetween ▸ List.mem_append_left _ h)
    have hbehind := htrusted.behind_step hseparated hstep (hadmissible _ hstep)
    rw [CacheStep.files, hcompiled] at hbehind
    have hagain := CacheStep.load_run hbehind hseparated hsubset
      (fun step h => hadmissible step (hsubset h)) hstep hload hkept
    refine Toolchain.compile_of_hit ?_
    rw [Subject.currentHash, hmodule]
    exact hagain

namespace Example

/-- The module with one function that returns at once. -/
def returning : Module :=
  { name := "a", functions := [{ name := "f", body := [⟨.return none, none⟩] }] }

/-- A module that does not compile: its function is empty. -/
def hollow : Module := { name := "b", functions := [{ name := "g", body := [] }] }

/-- A tree with an empty directory for the cache. -/
def shelves : FileTree := { entries := [(["cache"], .directory)] }

/-- A module is compiled, its entry is destroyed, and it is compiled for itself and for symbols with
a text in front, while another module fails. -/
def steps : List CacheStep :=
  [.compile {} none (.ofModule 0 returning), .overwrite {} returning [255, 1],
    .compile {} none (.ofModule 0 returning), .compile ⟨"_"⟩ none (.ofModule 0 returning),
    .compile {} none (.ofModule 1 hollow), .compile {} none (.ofModule 2 returning)]

end Example

/-- `ObjectCache.transparent` at a module whose entry was destroyed: compiling repairs the entry,
and later the module is loaded. -/
theorem ObjectCache.transparent_example :
    let cache : ObjectCache := ⟨"cache"⟩
    let o := Compilation.object { mangling := {} } 0 Example.returning
    ∃ compiled, Toolchain.compile { cache := some cache } none (.ofModule 0 Example.returning)
        (CacheStep.run cache Example.shelves (Example.steps.take 2)) = compiled ∧
      compiled.object = .ok o ∧
      ObjectFile.readFrom compiled.files (cache.path Example.returning.contentHash {}) = .ok o ∧
      (Toolchain.compile { cache := some cache } none (.ofModule 2 Example.returning)
        (CacheStep.run cache compiled.files ((Example.steps.drop 3).take 2))).messages =
          [⟨.debug, "Object cache hit for a"⟩] := by
  have hfresh : (ObjectCache.mk "cache").Fresh Example.shelves :=
    ⟨⟨["cache"], by decide +kernel, by decide +kernel, by decide +kernel⟩, by decide +kernel⟩
  have hseparated : CacheStep.Separated Example.steps :=
    ⟨by decide +kernel, by decide +kernel⟩
  have hadmissible : ∀ step ∈ Example.steps, step.Admissible := by decide +kernel
  have hsound : Example.returning.Sound := by decide +kernel
  have hsteps : Example.steps = Example.steps.take 2 ++
      .compile {} none (.ofModule 0 Example.returning) :: Example.steps.drop 3 := rfl
  obtain ⟨hobject, -, hkept⟩ := transparent hfresh hseparated hadmissible hsteps rfl
  have hok := hobject.trans (Compilation.compile_eq_ok_iff.mpr ⟨hsound, rfl⟩)
  obtain ⟨hentry, hhit⟩ := hkept _ rfl hok
  refine ⟨_, rfl, hok, hentry, ?_⟩
  have hloaded := hhit ((Example.steps.drop 3).take 2) (.ofModule 2 Example.returning) [] rfl rfl
    (fun content h => ?_)
  · exact congrArg Toolchain.Compiled.messages hloaded
  · simp [Example.steps] at h

end MutationLab
