import Mathlib.Logic.Function.Iterate
import MutationLab.Proofs.Application.Pending
import MutationLab.Proofs.Lookup
import MutationLab.Proofs.Names

/-! # The layout of a mutated module

What the functions of a module are at each stage of applying mutations, as a function of the module
as it was loaded, the points registered in it and the points applied in it (`Layout.functions`).
Nothing here refers to the steps that lead there. The names in a layout are distinct at every stage
as long as the derived names are fresh (`Layout.nodup_names`), which is what looking up a function
by its name relies on. -/

namespace MutationLab

/-- The function with its instruction at a point mutated; it stays as it is where the operator has
no site there. -/
def Point.mutate (p : Point) (f : Function) : Function :=
  { f with body := (Subject.mutateAt p.operator p.instruction f.body).getD f.body }

@[simp] theorem Point.name_mutate (p : Point) (f : Function) : (p.mutate f).name = f.name := rfl

@[simp] theorem Point.params_mutate (p : Point) (f : Function) :
    (p.mutate f).params = f.params := rfl

/-- A mutated body differs in one operation, which the operator has made of the one before. -/
theorem Subject.mutateAt_eq_some {operator : Operator} {position : Nat}
    {body mutated : List Instruction} (h : mutateAt operator position body = some mutated) :
    ∃ i operation, body[position]? = some i ∧ operator.mutate? i.operation = some operation ∧
      mutated = body.set position { i with operation } := by
  unfold mutateAt at h
  obtain ⟨i, hi, h⟩ := Option.bind_eq_some_iff.mp h
  obtain ⟨operation, hoperation, h⟩ := Option.bind_eq_some_iff.mp h
  exact ⟨i, operation, hi, hoperation, (Option.some.inj h).symm⟩

/-- Mutating a body changes no other position. -/
theorem Subject.getElem?_mutateAt {operator : Operator} {position other : Nat}
    {body mutated : List Instruction} (h : mutateAt operator position body = some mutated)
    (hother : other ≠ position) : mutated[other]? = body[other]? := by
  obtain ⟨i, operation, -, -, rfl⟩ := mutateAt_eq_some h
  rw [List.getElem?_set_ne (Ne.symm hother)]

/-- However often a function is mutated at a point, it changes there only. -/
theorem Point.getElem?_body_iterate_mutate (p : Point) (f : Function) (count : Nat) {other : Nat}
    (h : other ≠ p.instruction) : (p.mutate^[count] f).body[other]? = f.body[other]? := by
  induction count with
  | zero => rfl
  | succ count ih =>
    rw [Function.iterate_succ_apply', mutate]
    cases hmutated : Subject.mutateAt p.operator p.instruction (p.mutate^[count] f).body with
    | none => exact ih
    | some body => rw [Option.getD_some, Subject.getElem?_mutateAt hmutated h, ih]

/-- All derived names of the functions that points mutate. -/
def allDerivedNames (points : List Point) : List String :=
  (mutatedNames points).flatMap fun name => derivedNames name (pointsOn points name)

/-- The name of a point's copy is derived. -/
theorem cloneName_mem_allDerivedNames {p : Point} (hp : p ∈ registered) :
    p.cloneName ∈ allDerivedNames registered := by
  refine List.mem_flatMap.mpr ⟨p.function, mem_mutatedNames.mpr ⟨p, hp, rfl⟩, ?_⟩
  exact mem_derivedNames.mpr (.inr ⟨p, mem_pointsOn.mpr ⟨hp, rfl⟩, rfl⟩)

namespace Layout

section

variable (loaded : Module) (registered applied : List Point)

/-- The copies of a function: one as it was loaded, and one for every point on it, mutated as often
as the point was applied. -/
def copiesOf (name : String) : List Function :=
  match loaded.function? name with
  | none => []
  | some f =>
      f.named (pristineName name) ::
        (pointsOn registered name).map fun p => (p.mutate^[applied.count p] f).named p.cloneName

/-- The copies of all mutated functions. -/
def copies : List Function :=
  (mutatedNames registered).flatMap (copiesOf loaded registered applied)

/-- The functions that no point mutates. -/
def kept : List Function :=
  loaded.functions.filter fun f => f.name ∉ mutatedNames registered

/-- The function that stands under the name of a mutated one. -/
def trampolineOf (name : String) : List Function :=
  match loaded.function? name with
  | none => []
  | some f =>
      [{ name, params := f.params
         body := [{ operation := .dispatch (pristineName name)
                      ((pointsOn registered name).map fun p => ⟨p.id, p.cloneName⟩) }] }]

/-- The trampolines of all mutated functions. -/
def trampolines : List Function :=
  (mutatedNames registered).flatMap (trampolineOf loaded registered)

/-- The functions of a module at a stage. -/
def functions : Stage → List Function
  | .pristine | .registered => loaded.functions
  | .cloned => loaded.functions ++ copies loaded registered applied
  | .excised => kept loaded registered ++ copies loaded registered applied
  | .redirected | .applied =>
      kept loaded registered ++ copies loaded registered applied ++ trampolines loaded registered

/-- All mutated functions are defined, and no derived name is taken. -/
structure Fresh : Prop where
  defined : ∀ p ∈ registered, p.function ∈ loaded.functionNames
  distinct : (loaded.functionNames ++ allDerivedNames registered).Nodup

end

instance (loaded : Module) (registered : List Point) : Decidable (Fresh loaded registered) :=
  decidable_of_iff ((∀ p ∈ registered, p.function ∈ loaded.functionNames) ∧
      (loaded.functionNames ++ allDerivedNames registered).Nodup)
    ⟨fun h => ⟨h.1, h.2⟩, fun h => ⟨h.defined, h.distinct⟩⟩

variable {loaded : Module} {registered applied : List Point}

/-- All mutated functions are defined, and the derived names are distinct and free. The names of the
module itself need not be distinct. -/
structure Available (loaded : Module) (registered : List Point) : Prop where
  defined : ∀ p ∈ registered, p.function ∈ loaded.functionNames
  nodup : (allDerivedNames registered).Nodup
  free : ∀ derived ∈ allDerivedNames registered, derived ∉ loaded.functionNames

/-- Derived names are fresh when they are available and the module has distinct names. -/
theorem fresh_iff :
    Fresh loaded registered ↔ loaded.functionNames.Nodup ∧ Available loaded registered := by
  constructor
  · rintro ⟨hdefined, hdistinct⟩
    obtain ⟨hnames, hderived, hdisjoint⟩ := List.nodup_append.mp hdistinct
    exact ⟨hnames, hdefined, hderived,
      fun derived hmem hname => hdisjoint derived hname derived hmem rfl⟩
  · rintro ⟨hnames, havailable⟩
    refine ⟨havailable.defined, List.nodup_append.mpr ⟨hnames, havailable.nodup, ?_⟩⟩
    rintro name hname _ hmem rfl
    exact havailable.free name hmem hname

/-- The copies of a function carry its derived names. -/
theorem map_name_copiesOf {name : String} (h : name ∈ loaded.functionNames) :
    (copiesOf loaded registered applied name).map Function.name =
      derivedNames name (pointsOn registered name) := by
  obtain ⟨f, hf⟩ := Module.exists_function?_eq_some h
  rw [copiesOf, hf]
  dsimp only
  rw [List.map_cons, List.map_map, derivedNames]
  rfl

/-- Without points, every layout is the loaded code. -/
theorem functions_nil (loaded : Module) (applied : List Point) :
    functions loaded [] applied .applied = loaded.functions := by
  simp [functions, kept, copies, trampolines]

/-! ### What a layout holds -/

/-- A function that no point mutates is kept. -/
theorem mem_kept {f : Function} (hf : f ∈ loaded.functions)
    (hname : f.name ∉ mutatedNames registered) : f ∈ kept loaded registered :=
  List.mem_filter.mpr ⟨hf, decide_eq_true hname⟩

/-- A mutated function has an unmutated copy. -/
theorem mem_copies_pristine {name : String} {f : Function}
    (hname : name ∈ mutatedNames registered) (hf : loaded.function? name = some f) :
    f.named (pristineName name) ∈ copies loaded registered applied := by
  refine List.mem_flatMap.mpr ⟨name, hname, ?_⟩
  rw [copiesOf, hf]
  exact List.mem_cons_self

/-- A registered point has a copy of its function. -/
theorem mem_copies_mutant {p : Point} {f : Function} (hp : p ∈ registered)
    (hf : loaded.function? p.function = some f) :
    (p.mutate^[applied.count p] f).named p.cloneName ∈ copies loaded registered applied := by
  refine List.mem_flatMap.mpr ⟨p.function, mem_mutatedNames.mpr ⟨p, hp, rfl⟩, ?_⟩
  rw [copiesOf, hf]
  exact List.mem_cons_of_mem _ (List.mem_map.mpr ⟨p, mem_pointsOn.mpr ⟨hp, rfl⟩, rfl⟩)

/-- A mutated function has a trampoline. -/
theorem mem_trampolines {name : String} {f : Function} (hname : name ∈ mutatedNames registered)
    (hf : loaded.function? name = some f) :
    { name, params := f.params
      body := [{ operation := .dispatch (pristineName name)
                   ((pointsOn registered name).map fun p => ⟨p.id, p.cloneName⟩) }] } ∈
      trampolines loaded registered := by
  refine List.mem_flatMap.mpr ⟨name, hname, ?_⟩
  rw [trampolineOf, hf]
  exact List.mem_singleton_self _

/-- A copy is the unmutated one of a mutated function or that of a point on it. -/
theorem of_mem_copies {g : Function} (h : g ∈ copies loaded registered applied) :
    ∃ f ∈ loaded.functions, f.name ∈ mutatedNames registered ∧
      (g = f.named (pristineName f.name) ∨ ∃ p ∈ registered, p.function = f.name ∧
        g = (p.mutate^[applied.count p] f).named p.cloneName) := by
  obtain ⟨name, hname, hg⟩ := List.mem_flatMap.mp h
  rw [copiesOf] at hg
  cases hf : loaded.function? name with
  | none =>
    rw [hf] at hg
    exact nomatch hg
  | some f =>
    rw [hf] at hg
    obtain ⟨hmem, rfl⟩ := Module.mem_of_function?_eq_some hf
    refine ⟨f, hmem, hname, ?_⟩
    obtain rfl | hg := List.mem_cons.mp hg
    · exact .inl rfl
    · obtain ⟨p, hp, rfl⟩ := List.mem_map.mp hg
      obtain ⟨hp, hfunction⟩ := mem_pointsOn.mp hp
      exact .inr ⟨p, hp, hfunction, rfl⟩

/-- A trampoline stands for a mutated function. -/
theorem of_mem_trampolines {g : Function} (h : g ∈ trampolines loaded registered) :
    ∃ f ∈ loaded.functions, f.name ∈ mutatedNames registered ∧
      g = { name := f.name, params := f.params
            body := [{ operation := .dispatch (pristineName f.name)
                         ((pointsOn registered f.name).map fun p => ⟨p.id, p.cloneName⟩) }] } := by
  obtain ⟨name, hname, hg⟩ := List.mem_flatMap.mp h
  rw [trampolineOf] at hg
  cases hf : loaded.function? name with
  | none =>
    rw [hf] at hg
    exact nomatch hg
  | some f =>
    rw [hf] at hg
    obtain ⟨hmem, rfl⟩ := Module.mem_of_function?_eq_some hf
    exact ⟨f, hmem, hname, List.mem_singleton.mp hg⟩

/-- A function that is kept carries the name of a loaded one that no point mutates. -/
theorem of_mem_map_name_kept {name : String}
    (hname : name ∈ (kept loaded registered).map Function.name) :
    name ∈ loaded.functionNames ∧ name ∉ mutatedNames registered := by
  obtain ⟨f, hf, rfl⟩ := List.mem_map.mp hname
  rw [kept, List.mem_filter, decide_eq_true_iff] at hf
  exact ⟨List.mem_map_of_mem hf.1, hf.2⟩

namespace Available

variable (h : Available loaded registered)
include h

theorem mem_functionNames {name : String} (hname : name ∈ mutatedNames registered) :
    name ∈ loaded.functionNames := by
  obtain ⟨p, hp, rfl⟩ := mem_mutatedNames.mp hname
  exact h.defined p hp

/-- The copies carry the derived names. -/
theorem map_name_copies :
    (copies loaded registered applied).map Function.name = allDerivedNames registered := by
  rw [copies, List.map_flatMap, allDerivedNames]
  exact List.flatMap_congr fun name hname => map_name_copiesOf (h.mem_functionNames hname)

/-- The copies for the points on one function have distinct names. -/
theorem nodup_map_cloneName {p : Point} (hp : p ∈ registered) :
    ((pointsOn registered p.function).map Point.cloneName).Nodup := by
  have hnodup : (derivedNames p.function (pointsOn registered p.function)).Nodup :=
    (List.nodup_flatMap.mp h.nodup).1 _ (mem_mutatedNames.mpr ⟨p, hp, rfl⟩)
  rw [derivedNames, List.nodup_cons] at hnodup
  exact hnodup.2

/-- Points with one name for their copies are one point. -/
theorem cloneName_injective {p q : Point} (hp : p ∈ registered) (hq : q ∈ registered)
    (heq : p.cloneName = q.cloneName) : p = q := by
  have hfunction := Point.function_eq_of_cloneName_eq heq
  exact List.inj_on_of_nodup_map (h.nodup_map_cloneName hp) (mem_pointsOn.mpr ⟨hp, rfl⟩)
    (mem_pointsOn.mpr ⟨hq, hfunction.symm⟩) heq

/-- No point is registered twice. -/
theorem nodup_registered : registered.Nodup := by
  rw [List.nodup_iff_count_le_one]
  intro p
  by_cases hp : p ∈ registered
  · have hcount : (pointsOn registered p.function).count p = registered.count p :=
      List.count_filter (decide_eq_true rfl)
    rw [← hcount]
    exact List.nodup_iff_count_le_one.mp (List.Nodup.of_map _ (h.nodup_map_cloneName hp)) p
  · rw [List.count_eq_zero_of_not_mem hp]
    exact Nat.zero_le 1

/-- Mutating the copy of a point once more is counting one more application. -/
theorem map_copies {p : Point} {f : Function} {body : List Instruction} (hp : p ∈ registered)
    (hf : loaded.function? p.function = some f)
    (hbody : Subject.mutateAt p.operator p.instruction (p.mutate^[applied.count p] f).body =
      some body) :
    (copies loaded registered applied).map
        (fun g => if g.name = p.cloneName then { g with body } else g) =
      copies loaded registered (applied ++ [p]) := by
  rw [copies, copies, List.map_flatMap]
  refine List.flatMap_congr fun name _ => ?_
  rw [copiesOf, copiesOf]
  cases hg : loaded.function? name with
  | none => rfl
  | some g =>
    dsimp only
    rw [List.map_cons, List.map_map, if_neg fun heq => p.cloneName_ne_pristineName name heq.symm]
    refine congrArg _ (List.map_congr_left fun q hq => ?_)
    rw [mem_pointsOn] at hq
    rw [List.count_append, List.count_singleton]
    -- Of all copies, only that of the point carries its name.
    by_cases hqp : q = p
    · subst hqp
      obtain rfl : f = g := by
        rw [hq.2, hg] at hf
        exact (Option.some.inj hf).symm
      rw [Function.comp_apply, Function.name_named, if_pos rfl, if_pos (by simp),
        Function.iterate_succ_apply', Point.mutate, hbody]
      rfl
    · have hname : q.cloneName ≠ p.cloneName :=
        fun heq => hqp (h.cloneName_injective hq.1 hp heq)
      rw [Function.comp_apply, Function.name_named, if_neg hname,
        if_neg (by simpa using Ne.symm hqp), Nat.add_zero]

end Available

namespace Fresh

variable (h : Fresh loaded registered)
include h

theorem nodup_loaded : loaded.functionNames.Nodup := (fresh_iff.mp h).1

theorem available : Available loaded registered := (fresh_iff.mp h).2

/-- The trampolines carry the names of the mutated functions. -/
theorem map_name_trampolines :
    (trampolines loaded registered).map Function.name = mutatedNames registered := by
  have hone : ∀ name ∈ mutatedNames registered,
      (trampolineOf loaded registered name).map Function.name = [name] := by
    intro name hname
    obtain ⟨f, hf⟩ := Module.exists_function?_eq_some (h.available.mem_functionNames hname)
    rw [trampolineOf, hf]
    rfl
  rw [trampolines, List.map_flatMap, List.flatMap_congr hone, List.flatMap_singleton']

/-- Loaded functions and copies have distinct names. -/
theorem nodup_cloned :
    ((loaded.functions ++ copies loaded registered applied).map Function.name).Nodup := by
  rw [List.map_append, h.available.map_name_copies]
  exact h.distinct

/-- Kept functions and copies have distinct names. -/
theorem nodup_excised :
    ((kept loaded registered ++ copies loaded registered applied).map Function.name).Nodup :=
  h.nodup_cloned.sublist (((List.filter_sublist).append_right _).map _)

/-- Kept functions, copies and trampolines have distinct names. -/
theorem nodup_redirected :
    ((kept loaded registered ++ copies loaded registered applied ++
      trampolines loaded registered).map Function.name).Nodup := by
  rw [List.map_append, h.map_name_trampolines]
  refine List.nodup_append.mpr ⟨h.nodup_excised, nodup_mutatedNames registered, ?_⟩
  -- A trampoline stands under the name of a function that has made room for it.
  rintro name hbefore _ hmutated rfl
  rw [List.map_append, h.available.map_name_copies, List.mem_append] at hbefore
  obtain hkept | hderived := hbefore
  · exact (of_mem_map_name_kept hkept).2 hmutated
  · exact h.available.free _ hderived (h.available.mem_functionNames hmutated)

/-- **Names in a layout are distinct** at every stage. -/
theorem nodup_names (stage : Stage) :
    ((functions loaded registered applied stage).map Function.name).Nodup := by
  cases stage with
  | pristine => exact h.nodup_loaded
  | registered => exact h.nodup_loaded
  | cloned => exact h.nodup_cloned
  | excised => exact h.nodup_excised
  | redirected => exact h.nodup_redirected
  | applied => exact h.nodup_redirected

/-- **Applying a point** changes the layout by one more application of the point. -/
theorem modifyFirst_functions {p : Point} {f : Function} {body : List Instruction}
    (hp : p ∈ registered) (hf : loaded.function? p.function = some f)
    (hbody : Subject.mutateAt p.operator p.instruction (p.mutate^[applied.count p] f).body =
      some body) :
    Module.modifyFirst p.cloneName (fun g => { g with body })
        (functions loaded registered applied .applied) =
      functions loaded registered (applied ++ [p]) .applied := by
  have hloaded := h.available.free _ (cloneName_mem_allDerivedNames hp)
  -- Kept functions and trampolines carry names of loaded functions, which are not derived.
  have hkept : ∀ g ∈ kept loaded registered,
      (if g.name = p.cloneName then { g with body } else g) = g := by
    intro g hg
    refine if_neg fun heq : g.name = p.cloneName => hloaded ?_
    rw [← heq]
    exact (of_mem_map_name_kept (List.mem_map_of_mem hg)).1
  have htrampolines : ∀ g ∈ trampolines loaded registered,
      (if g.name = p.cloneName then { g with body } else g) = g := by
    intro g hg
    refine if_neg fun heq : g.name = p.cloneName => hloaded (h.available.mem_functionNames ?_)
    rw [← heq, ← h.map_name_trampolines]
    exact List.mem_map_of_mem hg
  rw [Module.modifyFirst_eq_map (h.nodup_names .applied)]
  simp only [functions, List.map_append]
  rw [List.map_congr_left hkept, List.map_congr_left htrampolines,
    h.available.map_copies hp hf hbody, List.map_id', List.map_id']

end Fresh

end Layout

end MutationLab
