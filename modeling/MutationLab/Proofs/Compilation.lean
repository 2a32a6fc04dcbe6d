import Mathlib.Data.List.Nodup
import Mathlib.Data.List.Pairwise
import MutationLab.Compile
import MutationLab.Proofs.Linking

/-! # What compiling does

A module compiles exactly when it is sound (`Module.Sound`), and its object file then holds every
function compiled on its own (`Compilation.compile_eq_ok_iff`). Programs are built by compiling all
their modules and linking the object files with others; `Compilation.builds_iff` says when this goes
through and what the image holds. -/

namespace MutationLab

namespace Function

/-- The last instruction of a function ends its body, and no instruction jumps out of it. -/
structure Sound (f : Function) : Prop where
  terminated : ∃ last, f.body.getLast? = some last ∧ last.operation.isTerminator = true
  inside : ∀ i ∈ f.body, ∀ target ∈ i.operation.targets, target.toNat < f.body.length

/-- No jump goes astray when all targets are small enough. -/
theorem strayJump?_eq_none_iff {size position : Nat} {is : List Instruction} :
    strayJump? size position is = none ↔
      ∀ i ∈ is, ∀ target ∈ i.operation.targets, target.toNat < size := by
  induction is generalizing position with
  | nil => simp [strayJump?]
  | cons i is ih =>
    rw [strayJump?, List.forall_mem_cons]
    cases hstray : i.operation.targets.find? fun target => size ≤ target.toNat with
    | some target =>
      have hmem := List.mem_of_find?_eq_some hstray
      have hle := List.find?_some hstray
      rw [decide_eq_true_eq] at hle
      refine iff_of_false (fun h => nomatch h) ?_
      rintro ⟨hinside, -⟩
      exact absurd (hinside target hmem) (Nat.not_lt.mpr hle)
    | none =>
      -- The first instruction stays inside, so it is up to the others.
      dsimp only
      rw [ih]
      refine (and_iff_right ?_).symm
      intro target htarget
      have hle := List.find?_eq_none.mp hstray target htarget
      rw [decide_eq_true_eq] at hle
      omega

/-- A function has no fault when it is sound, whatever its module is called. -/
theorem fault?_eq_none_iff {f : Function} {module : String} :
    f.fault? module = none ↔ f.Sound := by
  rw [fault?]
  cases hlast : f.body.getLast? with
  | none =>
    refine iff_of_false (fun h => nomatch h) ?_
    rintro ⟨⟨last, hsome, -⟩, -⟩
    rw [hlast] at hsome
    exact nomatch hsome
  | some last =>
    dsimp only
    by_cases hterminator : last.operation.isTerminator = true
    · rw [hterminator, Bool.not_true, if_neg Bool.false_ne_true, Option.map_eq_none_iff,
        strayJump?_eq_none_iff]
      exact ⟨fun hinside => ⟨⟨last, hlast, hterminator⟩, hinside⟩, Sound.inside⟩
    · refine iff_of_false ?_ ?_
      · rw [Bool.not_eq_true] at hterminator
        rw [hterminator, Bool.not_false, if_pos rfl]
        exact nofun
      · rintro ⟨⟨other, hother, hends⟩, -⟩
        obtain rfl := Option.some.inj (hlast.symm.trans hother)
        exact hterminator hends

instance (f : Function) : Decidable f.Sound :=
  decidable_of_iff (f.fault? "" = none) fault?_eq_none_iff

end Function

/-- The functions of a module have distinct names and are sound. -/
structure Module.Sound (m : Module) : Prop where
  nodup : m.functionNames.Nodup
  functions : ∀ f ∈ m.functions, f.Sound

instance (m : Module) : Decidable m.Sound :=
  decidable_of_iff (m.functionNames.Nodup ∧ ∀ f ∈ m.functions, f.Sound)
    ⟨fun h => ⟨h.1, h.2⟩, fun h => ⟨h.nodup, h.functions⟩⟩

/-- What is made of the elements of a list and their positions. -/
theorem mem_flatMap_zipIdx {xs : List α} {f : α × Nat → List β} {b : β} :
    b ∈ xs.zipIdx.flatMap f ↔ ∃ i x, xs[i]? = some x ∧ b ∈ f (x, i) := by
  rw [List.mem_flatMap]
  constructor
  · rintro ⟨⟨x, i⟩, hx, hb⟩
    exact ⟨i, x, List.mem_zipIdx_iff_getElem?.mp hx, hb⟩
  · rintro ⟨i, x, hx, hb⟩
    exact ⟨(x, i), List.mem_zipIdx_iff_getElem?.mpr hx, hb⟩

namespace Compilation

variable {c : Compilation}

/-- The object file that holds the functions of a module, each compiled on its own. -/
def object (c : Compilation) (id : ModuleId) (m : Module) : ObjectFile :=
  { name := m.name, sourceHash := m.contentHash, instrumented := c.probes.isSome
    functions := m.functions.map (c.function id) }

/-- The name of a function is one more name that the functions behind it must avoid. -/
theorem forall_name_notMem_cons_iff {name : String} {seen : List String} {fs : List Function} :
    (∀ g ∈ fs, g.name ∉ name :: seen) ↔
      name ∉ fs.map Function.name ∧ ∀ g ∈ fs, g.name ∉ seen := by
  constructor
  · intro h
    refine ⟨fun hmem => ?_, fun g hg hmem => h g hg (List.mem_cons_of_mem _ hmem)⟩
    obtain ⟨g, hg, hname⟩ := List.mem_map.mp hmem
    exact h g hg (hname ▸ List.mem_cons_self)
  · rintro ⟨hfresh, hothers⟩ g hg hmem
    obtain hname | hmem := List.mem_cons.mp hmem
    · exact hfresh (hname ▸ List.mem_map_of_mem hg)
    · exact hothers g hg hmem

/-- Functions compile when their names are new and distinct and they are sound. -/
theorem functions_eq_ok_iff {id : ModuleId} {module : String} {seen : List String}
    {fs : List Function} {compiled : List CompiledFunction} :
    c.functions id module seen fs = .ok compiled ↔
      ((fs.map Function.name).Nodup ∧ ∀ f ∈ fs, f.name ∉ seen) ∧ (∀ f ∈ fs, f.Sound) ∧
        fs.map (c.function id) = compiled := by
  induction fs generalizing seen compiled with
  | nil => simp [functions]
  | cons f fs ih =>
    rw [functions, List.map_cons, List.nodup_cons, List.forall_mem_cons, List.forall_mem_cons,
      List.map_cons]
    by_cases hseen : f.name ∈ seen
    · rw [if_pos hseen]
      exact iff_of_false (fun h => nomatch h) fun h => h.1.2.1 hseen
    · rw [if_neg hseen]
      cases hfault : f.fault? module with
      | some e =>
        refine iff_of_false (fun h => nomatch h) ?_
        rintro ⟨-, ⟨hsound, -⟩, -⟩
        rw [Function.fault?_eq_none_iff.mpr hsound] at hfault
        exact nomatch hfault
      | none =>
        have hsound := Function.fault?_eq_none_iff.mp hfault
        dsimp only
        rw [map_eq_ok_iff]
        constructor
        · rintro ⟨rest, hrest, rfl⟩
          obtain ⟨⟨hnodup, hseen'⟩, hothers, rfl⟩ := ih.mp hrest
          obtain ⟨hfresh, hseen'⟩ := forall_name_notMem_cons_iff.mp hseen'
          exact ⟨⟨⟨hfresh, hnodup⟩, hseen, hseen'⟩, ⟨hsound, hothers⟩, rfl⟩
        · rintro ⟨⟨⟨hfresh, hnodup⟩, -, hseen'⟩, ⟨-, hothers⟩, rfl⟩
          have hbehind := forall_name_notMem_cons_iff.mpr ⟨hfresh, hseen'⟩
          exact ⟨_, ih.mpr ⟨⟨hnodup, hbehind⟩, hothers, rfl⟩, rfl⟩

/-- **A module compiles exactly when it is sound.** -/
theorem compile_eq_ok_iff {id : ModuleId} {m : Module} {o : ObjectFile} :
    c.compile id m = .ok o ↔ m.Sound ∧ c.object id m = o := by
  rw [compile, map_eq_ok_iff]
  constructor
  · rintro ⟨compiled, hcompiled, rfl⟩
    obtain ⟨⟨hnodup, -⟩, hsound, rfl⟩ := functions_eq_ok_iff.mp hcompiled
    exact ⟨⟨hnodup, hsound⟩, rfl⟩
  · rintro ⟨hsound, rfl⟩
    exact ⟨_, functions_eq_ok_iff.mpr
      ⟨⟨hsound.nodup, fun _ _ => List.not_mem_nil⟩, hsound.functions, rfl⟩, rfl⟩

/-! ## Whole programs -/

/-- Compile modules, the first of which has the number `first`. -/
def compileAll (c : Compilation) : (first : ModuleId) → List Module →
    Except CompileError (List ObjectFile)
  | _, [] => .ok []
  | first, m :: ms => do
      let o ← c.compile first m
      let os ← c.compileAll (first + 1) ms
      return o :: os

/-- An image is built from the modules of a program and further object files. -/
def Builds (c : Compilation) (ms : List Module) (extra : List ObjectFile) (image : Image) : Prop :=
  ∃ objects, c.compileAll 0 ms = .ok objects ∧ Image.link (objects ++ extra) = .ok image

/-- The compiled functions of a program that has its modules and further object files. -/
def programFunctions (c : Compilation) (ms : List Module) (extra : List ObjectFile) :
    List CompiledFunction :=
  (ms.zipIdx.flatMap fun entry => entry.1.functions.map (c.function entry.2)) ++
    extra.flatMap ObjectFile.functions

/-- Modules compile when all of them are sound. -/
theorem compileAll_eq_ok_iff {first : ModuleId} {ms : List Module} {objects : List ObjectFile} :
    c.compileAll first ms = .ok objects ↔
      (∀ m ∈ ms, m.Sound) ∧ (ms.zipIdx first).map (fun (m, id) => c.object id m) = objects := by
  induction ms generalizing first objects with
  | nil => simp [compileAll]
  | cons m ms ih =>
    rw [compileAll, both_eq_ok_iff, List.forall_mem_cons, List.zipIdx_cons, List.map_cons]
    constructor
    · rintro ⟨o, os, ho, hos, rfl⟩
      obtain ⟨hsound, rfl⟩ := compile_eq_ok_iff.mp ho
      obtain ⟨hothers, rfl⟩ := ih.mp hos
      exact ⟨⟨hsound, hothers⟩, rfl⟩
    · rintro ⟨⟨hsound, hothers⟩, rfl⟩
      exact ⟨_, _, compile_eq_ok_iff.mpr ⟨hsound, rfl⟩, ih.mpr ⟨hothers, rfl⟩, rfl⟩

/-- The functions that are linked are those of the program. -/
theorem flatMap_functions_of_compileAll {ms : List Module} {objects extra : List ObjectFile}
    (h : c.compileAll 0 ms = .ok objects) :
    (objects ++ extra).flatMap ObjectFile.functions = c.programFunctions ms extra := by
  obtain ⟨-, rfl⟩ := compileAll_eq_ok_iff.mp h
  rw [List.flatMap_append, List.flatMap_map, programFunctions]
  rfl

/-- **An image is built from sound modules exactly when it holds their functions.** -/
theorem builds_iff {ms : List Module} {extra : List ObjectFile} {image : Image} :
    c.Builds ms extra image ↔ (∀ m ∈ ms, m.Sound) ∧ image.Holds (c.programFunctions ms extra) := by
  constructor
  · rintro ⟨objects, hobjects, hlink⟩
    rw [Image.link_eq_ok_iff, flatMap_functions_of_compileAll hobjects] at hlink
    exact ⟨(compileAll_eq_ok_iff.mp hobjects).1, hlink⟩
  · rintro ⟨hsound, hholds⟩
    have hobjects : c.compileAll 0 ms = .ok (ms.zipIdx.map fun (m, id) => c.object id m) :=
      compileAll_eq_ok_iff.mpr ⟨hsound, rfl⟩
    refine ⟨_, hobjects, ?_⟩
    rw [Image.link_eq_ok_iff, flatMap_functions_of_compileAll hobjects]
    exact hholds

/-- **A program is built from sound modules** if no symbol is defined twice and every symbol that is
used is provided with as many arguments. -/
theorem builds_ofFunctions {ms : List Module} {extra : List ObjectFile}
    (hsound : ∀ m ∈ ms, m.Sound)
    (hnodup : ((c.programFunctions ms extra).map CompiledFunction.symbol).Nodup)
    (hprovided : ∀ f ∈ c.programFunctions ms extra, ∀ use ∈ f.uses,
      Provides (c.programFunctions ms extra) use) :
    c.Builds ms extra (.ofFunctions (c.programFunctions ms extra)) :=
  builds_iff.mpr ⟨hsound, Image.holds_ofFunctions hnodup hprovided⟩

/-- The functions of a program come from its modules or from its object files. -/
theorem mem_programFunctions {ms : List Module} {extra : List ObjectFile} {g : CompiledFunction} :
    g ∈ c.programFunctions ms extra ↔
      (∃ id m, ms[id]? = some m ∧ ∃ f ∈ m.functions, c.function id f = g) ∨
        ∃ o ∈ extra, g ∈ o.functions := by
  rw [programFunctions, List.mem_append, mem_flatMap_zipIdx, List.mem_flatMap]
  simp only [List.mem_map]

section

variable {ms : List Module} {extra : List ObjectFile}
  (hdistinct : ((c.programFunctions ms extra).map CompiledFunction.symbol).Nodup)
  {id : ModuleId} {m : Module} (hm : ms[id]? = some m) {f : Function} (hf : f ∈ m.functions)

include hdistinct hm hf

/-- In a program without a symbol defined twice, a name is defined in one module only. -/
theorem id_eq_of_name_eq {other : ModuleId} {n : Module} (hn : ms[other]? = some n) {g : Function}
    (hg : g ∈ n.functions) (hname : g.name = f.name) : other = id := by
  rw [programFunctions, List.map_append, List.nodup_append, List.map_flatMap,
    List.nodup_flatMap] at hdistinct
  by_contra hne
  have hsymm : Std.Symm (Function.onFun List.Disjoint fun entry : Module × ModuleId =>
      (entry.1.functions.map (c.function entry.2)).map CompiledFunction.symbol) :=
    ⟨fun _ _ h _ hleft hright => h hright hleft⟩
  have hdisjoint := hdistinct.1.2.forall
    (List.mem_zipIdx_iff_getElem?.mpr hn : (n, other) ∈ ms.zipIdx)
    (List.mem_zipIdx_iff_getElem?.mpr hm : (m, id) ∈ ms.zipIdx)
    (fun heq => hne (congrArg Prod.snd heq))
  refine hdisjoint (List.mem_map_of_mem (List.mem_map_of_mem hg)) ?_
  refine List.mem_map.mpr ⟨c.function id f, List.mem_map_of_mem hf, ?_⟩
  exact congrArg c.mangling.mangle hname.symm

/-- In a program without a symbol defined twice, an object file does not define a name of a
module. -/
theorem symbol_ne_mangle {o : ObjectFile} (ho : o ∈ extra) {g : CompiledFunction}
    (hg : g ∈ o.functions) : g.symbol ≠ c.mangling.mangle f.name := by
  rw [programFunctions, List.map_append, List.nodup_append] at hdistinct
  intro hsymbol
  refine hdistinct.2.2 (c.mangling.mangle f.name) ?_ g.symbol ?_ hsymbol.symm
  · refine List.mem_map.mpr ⟨c.function id f, ?_, rfl⟩
    exact List.mem_flatMap.mpr
      ⟨(m, id), List.mem_zipIdx_iff_getElem?.mpr hm, List.mem_map_of_mem hf⟩
  · exact List.mem_map_of_mem (List.mem_flatMap.mpr ⟨o, ho, hg⟩)

end

end Compilation

end MutationLab
