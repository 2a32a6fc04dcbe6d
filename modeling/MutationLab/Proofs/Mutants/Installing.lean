import Mathlib.Algebra.Order.BigOperators.Group.List
import MutationLab.Pipeline
import MutationLab.Proofs.Application.Progress
import MutationLab.Proofs.Discovery
import MutationLab.Proofs.Pools

/-! # Putting mutants into a program

What the steps of applying mutations do to all modules of a program together. `Program.Standing`
follows a program from its loading to the last step. If the derived names of its modules are fresh,
then every step goes through and the modules hold all mutants (`withMutants`) in the end; if not,
then some mutated function is not copied, and there is no other step that can fail. -/

namespace MutationLab

/-! ## The modules with all mutants -/

/-- The points of a module. -/
def pointsIn (points : List Point) (id : ModuleId) : List Point := points.filter (·.module = id)

theorem mem_pointsIn {points : List Point} {id : ModuleId} {p : Point} :
    p ∈ pointsIn points id ↔ p ∈ points ∧ p.module = id := by
  simp [pointsIn]

/-- The points of a module and one more point. -/
theorem pointsIn_append_singleton (points : List Point) (p : Point) (id : ModuleId) :
    pointsIn (points ++ [p]) id =
      if p.module = id then pointsIn points id ++ [p] else pointsIn points id := by
  by_cases h : p.module = id
  · rw [if_pos h, pointsIn, List.filter_append]
    simp [h, pointsIn]
  · rw [if_neg h, pointsIn, List.filter_append]
    simp [h, pointsIn]

/-- The code of a module with the mutants of all of its points. -/
def Module.withMutants (m : Module) (points : List Point) : Module :=
  { m with functions := Layout.functions m points points .applied }

/-- Modules with the mutants of all points. -/
def withMutants (ms : List Module) (points : List Point) : List Module :=
  ms.mapIdx fun id m => m.withMutants (pointsIn points id)

theorem getElem?_withMutants (ms : List Module) (points : List Point) (id : ModuleId) :
    (withMutants ms points)[id]? = ms[id]?.map fun m => m.withMutants (pointsIn points id) := by
  rw [withMutants, List.getElem?_mapIdx]

theorem zipIdx_withMutants (ms : List Module) (points : List Point) :
    (withMutants ms points).zipIdx = ms.zipIdx.map fun entry =>
      (entry.1.withMutants (pointsIn points entry.2), entry.2) := by
  refine List.ext_getElem (by simp [withMutants]) fun id hleft hright => ?_
  simp [withMutants]

/-- In every module the derived names of its points are fresh. -/
def FreshNames (ms : List Module) (points : List Point) : Prop :=
  ∀ entry ∈ ms.zipIdx, Layout.Fresh entry.1 (pointsIn points entry.2)

instance (ms : List Module) (points : List Point) : Decidable (FreshNames ms points) :=
  inferInstanceAs (Decidable (∀ entry ∈ ms.zipIdx, _))

theorem FreshNames.fresh {ms : List Module} {points : List Point} (h : FreshNames ms points)
    {id : ModuleId} {m : Module} (hm : ms[id]? = some m) : Layout.Fresh m (pointsIn points id) :=
  h (m, id) (List.mem_zipIdx_iff_getElem?.mpr hm)

/-- Where names are fresh, no point stands twice. -/
theorem FreshNames.nodup {ms : List Module} {points : List Point} (h : FreshNames ms points)
    (hplaced : ∀ p ∈ points, p.module < ms.length) : points.Nodup := by
  rw [List.nodup_iff_count_le_one]
  intro p
  by_cases hp : p ∈ points
  · have hfresh := h.fresh (List.getElem?_eq_getElem (hplaced p hp))
    have hcount : (pointsIn points p.module).count p = points.count p :=
      List.count_filter (decide_eq_true rfl)
    rw [← hcount]
    exact List.nodup_iff_count_le_one.mp hfresh.available.nodup_registered p
  · rw [List.count_eq_zero_of_not_mem hp]
    exact Nat.zero_le 1

/-! ## Steps as work on a module -/

namespace Subject.Standing

variable {id : ModuleId} {loaded : Module} {points : List Point} {s : Subject}

/-- Copying is done when the derived names are fresh. -/
theorem cloneStep (h : Standing id loaded points [] [.registered] s)
    (hfresh : Layout.Fresh loaded points) :
    (Pipeline.cloneStep s).1.Clean ∧
      Standing id loaded points [] [.cloned] (Pipeline.cloneStep s).2 := by
  obtain ⟨t, hclone, ht⟩ := h.clone hfresh
  rw [Pipeline.cloneStep, hclone]
  exact ⟨Step.clean_outputs _, ht⟩

/-- Cutting out is done. -/
theorem exciseStep (h : Standing id loaded points [] [.cloned] s) :
    (Pipeline.exciseStep s).1.Clean ∧
      Standing id loaded points [] [.excised] (Pipeline.exciseStep s).2 := by
  obtain ⟨t, hexcise, ht⟩ := h.excise
  rw [Pipeline.exciseStep, hexcise]
  exact ⟨Step.clean_outputs _, ht⟩

/-- Redirecting is done. -/
theorem redirectStep (h : Standing id loaded points [] [.excised] s) :
    (Pipeline.redirectStep s).1.Clean ∧
      Standing id loaded points [] [.redirected] (Pipeline.redirectStep s).2 := by
  obtain ⟨t, hredirect, ht⟩ := h.redirect
  rw [Pipeline.redirectStep, hredirect]
  exact ⟨Step.clean_outputs _, ht⟩

end Subject.Standing

/-! ## A program on its way -/

namespace Program

/-- A program was loaded with the modules `ms` and further object files; points are registered in
its modules, some of them are applied, and every module with points stands at one of the stages. -/
structure Standing (ms : List Module) (objects : List ObjectFile) (points applied : List Point)
    (stages : List Stage) (program : Program) : Prop where
  length_eq : program.subjects.length = ms.length
  objects_eq : program.objects = objects
  subject : ∀ {id m s}, ms[id]? = some m → program.subjects[id]? = some s →
    Subject.Standing id m (pointsIn points id) (pointsIn applied id) stages s

namespace Standing

variable {ms : List Module} {objects : List ObjectFile} {points applied : List Point}
  {stages : List Stage} {program : Program}

/-- A program as it is loaded stands anywhere. -/
theorem numbered (h : program.subjects = numbered 0 ms) :
    Standing ms program.objects [] [] stages program where
  length_eq := by
    have hmodules := congrArg List.length (map_module_numbered 0 ms)
    rwa [List.length_map, ← h] at hmodules
  objects_eq := rfl
  subject := by
    intro id m s hm hs
    rw [h, getElem?_numbered, hm, Nat.zero_add] at hs
    obtain rfl := Option.some.inj hs
    exact Subject.Standing.ofModule id m

/-- More stages say less. -/
theorem mono {stages' : List Stage} (h : Standing ms objects points applied stages program)
    (hsubset : stages ⊆ stages') : Standing ms objects points applied stages' program :=
  ⟨h.length_eq, h.objects_eq, fun hm hs => (h.subject hm hs).mono hsubset⟩

/-- Every module has a subject, and the other way round. -/
theorem exists_subject (h : Standing ms objects points applied stages program) {id : ModuleId}
    {m : Module} (hm : ms[id]? = some m) :
    ∃ s, program.subject? id = some s ∧
      Subject.Standing id m (pointsIn points id) (pointsIn applied id) stages s := by
  have hlt : id < program.subjects.length := by
    rw [h.length_eq]
    exact (List.getElem?_eq_some_iff.mp hm).1
  have hs : program.subject? id = some program.subjects[id] := List.getElem?_eq_getElem hlt
  exact ⟨_, hs, h.subject hm hs⟩

theorem exists_module (h : Standing ms objects points applied stages program) {id : ModuleId}
    {s : Subject} (hs : program.subjects[id]? = some s) :
    ∃ m, ms[id]? = some m ∧
      Subject.Standing id m (pointsIn points id) (pointsIn applied id) stages s := by
  have hlt : id < ms.length := by
    rw [← h.length_eq]
    exact (List.getElem?_eq_some_iff.mp hs).1
  exact ⟨_, List.getElem?_eq_getElem hlt, h.subject (List.getElem?_eq_getElem hlt) hs⟩

/-- What can be said of every subject by its module can be said of all modules in order. -/
theorem map_subjects (h : Standing ms objects points applied stages program) {f : Subject → β}
    {g : Module × ModuleId → β}
    (hread : ∀ {id m s}, ms[id]? = some m →
      Subject.Standing id m (pointsIn points id) (pointsIn applied id) stages s →
      f s = g (m, id)) :
    program.subjects.map f = ms.zipIdx.map g := by
  refine List.ext_getElem (by simp [h.length_eq]) fun id hleft hright => ?_
  rw [List.length_map] at hleft
  have hs := List.getElem?_eq_getElem hleft
  obtain ⟨m, hm, hstanding⟩ := h.exists_module hs
  obtain ⟨hlt, rfl⟩ := List.getElem?_eq_some_iff.mp hm
  rw [List.getElem_map, List.getElem_map, List.getElem_zipIdx, Nat.zero_add]
  exact hread hm hstanding

/-- A change of one module leaves the others as they were. -/
theorem setSubject (h : Standing ms objects points applied stages program)
    {points' applied' : List Point} {id : ModuleId} {t : Subject}
    (ht : ∀ {m}, ms[id]? = some m →
      Subject.Standing id m (pointsIn points' id) (pointsIn applied' id) stages t)
    (hother : ∀ other, id ≠ other → pointsIn points' other = pointsIn points other ∧
      pointsIn applied' other = pointsIn applied other) :
    Standing ms objects points' applied' stages (program.setSubject id t) where
  length_eq := by
    rw [Program.setSubject, List.length_set]
    exact h.length_eq
  objects_eq := h.objects_eq
  subject := by
    intro other m s hm hs
    rw [Program.setSubject] at hs
    by_cases heq : id = other
    · subst heq
      obtain ⟨hlt, -⟩ := List.getElem?_eq_some_iff.mp hs
      rw [List.length_set] at hlt
      rw [List.getElem?_set_self hlt] at hs
      obtain rfl := Option.some.inj hs
      exact ht hm
    · rw [List.getElem?_set_ne heq] at hs
      obtain ⟨hpoints, happlied⟩ := hother other heq
      rw [hpoints, happlied]
      exact h.subject hm hs

/-- Changing every module on its own. -/
theorem mapSubjects (h : Standing ms objects points applied stages program)
    {stages' : List Stage} {work : Subject → Subject}
    (hwork : ∀ {id m s}, ms[id]? = some m →
      Subject.Standing id m (pointsIn points id) (pointsIn applied id) stages s →
      Subject.Standing id m (pointsIn points id) (pointsIn applied id) stages' (work s)) :
    Standing ms objects points applied stages'
      { program with subjects := program.subjects.map work } where
  length_eq := by
    rw [List.length_map]
    exact h.length_eq
  objects_eq := h.objects_eq
  subject := by
    intro id m s hm hs
    rw [List.getElem?_map] at hs
    obtain ⟨old, hold, rfl⟩ := Option.map_eq_some_iff.mp hs
    exact hwork hm (h.subject hm hold)

/-! ### Registering -/

/-- **All points can be registered**, as long as each is a point of some module. -/
theorem registerAll {earlier : List Point}
    (h : Standing ms objects earlier [] [.registered] program)
    (hplaced : ∀ p ∈ points, p.module < ms.length) :
    ∃ after, Pipeline.registerAll program points = (.ok (), after) ∧
      Standing ms objects (earlier ++ points) [] [.registered] after := by
  induction points generalizing earlier program with
  | nil => exact ⟨program, rfl, by rwa [List.append_nil]⟩
  | cons p points ih =>
    rw [List.forall_mem_cons] at hplaced
    obtain ⟨s, hs, hstanding⟩ := h.exists_subject (List.getElem?_eq_getElem hplaced.1)
    obtain ⟨t, hregister, ht⟩ := hstanding.register rfl
    have hnext : Standing ms objects (earlier ++ [p]) [] [.registered]
        (program.setSubject p.module t) := by
      refine h.setSubject (fun hm => ?_) fun other hother => ?_
      · obtain rfl := Option.some.inj ((List.getElem?_eq_getElem hplaced.1).symm.trans hm)
        rw [pointsIn_append_singleton, if_pos rfl]
        exact ht
      · rw [pointsIn_append_singleton, if_neg hother]
        exact ⟨rfl, rfl⟩
    obtain ⟨after, hafter, hstanding'⟩ := ih hnext hplaced.2
    refine ⟨after, ?_, by rwa [List.append_assoc] at hstanding'⟩
    rw [Pipeline.registerAll, hs]
    dsimp only
    rw [hregister]
    exact hafter

/-! ### Applying -/

/-- The points that are to be applied come behind those that are. -/
def Applying (ms : List Module) (objects : List ObjectFile) (points rest : List Point)
    (program : Program) : Prop :=
  ∃ applied, points = applied ++ rest ∧
    Standing ms objects points applied [.redirected, .applied] program

/-- **Every point can be applied** in its turn. -/
theorem foreseen_applyTask (hnodup : points.Nodup) (hsited : ∀ p ∈ points, p.Sited ms) :
    Task.Foreseen Pipeline.applyTask (fun p => { outputs := [p] })
      (Applying ms objects points) := by
  have hstep : ∀ {p rest program}, Applying ms objects points (p :: rest) program →
      ∃ after, Pipeline.applyTask p program = ({ outputs := [p] }, after) ∧
        Applying ms objects points rest after := by
    rintro p rest program ⟨applied, hpoints, h⟩
    have hp : p ∈ points := by
      rw [hpoints]
      exact List.mem_append_right _ List.mem_cons_self
    -- The point is not among those that are applied, because no point stands twice.
    have hnew : p ∉ applied := by
      intro hmem
      rw [hpoints] at hnodup
      exact (List.nodup_append.mp hnodup).2.2 p hmem p List.mem_cons_self rfl
    obtain ⟨m, f, hm, hf, hsite⟩ := hsited p hp
    obtain ⟨s, hs, hstanding⟩ := h.exists_subject hm
    obtain ⟨t, happly, ht⟩ := hstanding.apply (mem_pointsIn.mpr ⟨hp, rfl⟩) rfl
      (fun hmem => hnew (mem_pointsIn.mp hmem).1) hf hsite
    refine ⟨program.setSubject p.module t, ?_, applied ++ [p], by simp [hpoints], ?_⟩
    · rw [Pipeline.applyTask, hs]
      dsimp only
      rw [happly]
      rfl
    · refine h.setSubject (fun hm' => ?_) fun other hother => ?_
      · obtain rfl := Option.some.inj (hm.symm.trans hm')
        rw [pointsIn_append_singleton, if_pos rfl]
        exact ht
      · rw [pointsIn_append_singleton, if_neg hother]
        exact ⟨rfl, rfl⟩
  constructor
  · intro p rest program hready
    obtain ⟨after, happly, -⟩ := hstep hready
    exact congrArg Prod.fst happly
  · intro p rest program hready
    obtain ⟨after, happly, hafter⟩ := hstep hready
    rw [happly]
    exact hafter

/-- **Once all points are applied**, every module holds all of its mutants. -/
theorem subjects_eq (h : Standing ms objects points points stages program) :
    program.subjects.map (fun s => (s.module, s.id)) = (withMutants ms points).zipIdx := by
  rw [zipIdx_withMutants]
  exact h.map_subjects fun _ hstanding => Prod.ext hstanding.module_eq hstanding.reached.id_eq

end Standing

end Program

/-! ## Copying -/

/-- A list without repetitions. -/
theorem nodup_eraseDups [BEq α] [LawfulBEq α] (xs : List α) : xs.eraseDups.Nodup := by
  generalize hlength : xs.length = n
  induction n using Nat.strongRecOn generalizing xs with
  | ind n ih =>
    cases xs with
    | nil => exact List.nodup_nil
    | cons x xs =>
      rw [List.eraseDups_cons, List.nodup_cons, List.mem_eraseDups]
      refine ⟨by simp, ih _ ?_ _ rfl⟩
      rw [← hlength, List.length_cons]
      exact Nat.lt_succ_of_le (List.length_filter_le ..)

/-- The functions of modules that points mutate. -/
def mutatedKeys (ms : List Module) (points : List Point) : List FunctionKey :=
  ms.zipIdx.flatMap fun entry =>
    (mutatedNames (pointsIn points entry.2)).map fun name => ⟨entry.2, name⟩

/-- There are as many of them as copying has to name. -/
theorem length_mutatedKeys {ms : List Module} {points : List Point}
    (hplaced : ∀ p ∈ points, p.module < ms.length) :
    (mutatedKeys ms points).length = (Pipeline.mutatedFunctions points).length := by
  have hnodup : (mutatedKeys ms points).Nodup := by
    have hids : (ms.zipIdx.map Prod.snd).Nodup := by
      rw [List.zipIdx_map_snd]
      exact List.nodup_range'
    rw [mutatedKeys, List.nodup_flatMap]
    refine ⟨fun entry _ => ?_, ?_⟩
    · exact (nodup_mutatedNames _).map fun a b heq => congrArg FunctionKey.name heq
    · refine (List.pairwise_map.mp hids).imp fun {a b} hne => ?_
      intro key ha hb
      obtain ⟨name, -, rfl⟩ := List.mem_map.mp ha
      obtain ⟨name', -, heq⟩ := List.mem_map.mp hb
      exact hne (congrArg FunctionKey.module heq).symm
  refine List.Perm.length_eq ((List.perm_ext_iff_of_nodup hnodup (nodup_eraseDups _)).mpr ?_)
  intro key
  rw [mutatedKeys, List.mem_flatMap, List.mem_eraseDups, List.mem_map]
  constructor
  · rintro ⟨⟨m, id⟩, -, hkey⟩
    obtain ⟨name, hname, rfl⟩ := List.mem_map.mp hkey
    obtain ⟨p, hp, rfl⟩ := mem_mutatedNames.mp hname
    obtain ⟨hmem, rfl⟩ := mem_pointsIn.mp hp
    exact ⟨p, hmem, rfl⟩
  · rintro ⟨p, hp, rfl⟩
    have hm := List.getElem?_eq_getElem (hplaced p hp)
    refine ⟨(_, p.module), List.mem_zipIdx_iff_getElem?.mpr hm, ?_⟩
    refine List.mem_map.mpr ⟨p.function, mem_mutatedNames.mpr ⟨p, ?_, rfl⟩, rfl⟩
    exact mem_pointsIn.mpr ⟨hp, rfl⟩

namespace Program.Standing

variable {ms : List Module} {objects : List ObjectFile} {points : List Point} {program : Program}
  (h : Standing ms objects points [] [.registered] program)

include h

/-- What copying names: the mutated functions of the modules whose derived names are fresh. -/
theorem flatMap_cloneStep (hnames : ∀ m ∈ ms, m.functionNames.Nodup) :
    (program.subjects.flatMap fun s => (Pipeline.cloneStep s).1.outputs) =
      ms.zipIdx.flatMap fun entry =>
        if Layout.Fresh entry.1 (pointsIn points entry.2) then
          (mutatedNames (pointsIn points entry.2)).map fun name => ⟨entry.2, name⟩
        else [] := by
  rw [List.flatMap_def, List.flatMap_def]
  refine congrArg List.flatten (h.map_subjects fun {id m s} hm hstanding => ?_)
  by_cases hfresh : Layout.Fresh m (pointsIn points id)
  · obtain ⟨t, hclone, ht⟩ := hstanding.clone hfresh
    rw [if_pos hfresh, Pipeline.cloneStep, hclone, ← ht.reached.id_eq]
    rfl
  · obtain ⟨e, hclone⟩ := hstanding.clone_refused (hnames m (List.mem_of_getElem? hm)) hfresh
    rw [if_neg hfresh, Pipeline.cloneStep, hclone]
    rfl

/-- If all derived names are fresh, every mutated function is named. -/
theorem flatMap_cloneStep_of_fresh (hnames : ∀ m ∈ ms, m.functionNames.Nodup)
    (hfresh : FreshNames ms points) :
    (program.subjects.flatMap fun s => (Pipeline.cloneStep s).1.outputs) =
      mutatedKeys ms points := by
  rw [h.flatMap_cloneStep hnames, mutatedKeys]
  exact List.flatMap_congr fun entry hentry => if_pos (hfresh entry hentry)

/-- **If some derived name is not fresh, some mutated function is not named.** -/
theorem length_flatMap_cloneStep_lt (hnames : ∀ m ∈ ms, m.functionNames.Nodup)
    (hfresh : ¬ FreshNames ms points) :
    (program.subjects.flatMap fun s => (Pipeline.cloneStep s).1.outputs).length <
      (mutatedKeys ms points).length := by
  rw [h.flatMap_cloneStep hnames, mutatedKeys, List.length_flatMap, List.length_flatMap]
  rw [FreshNames, not_forall] at hfresh
  obtain ⟨entry, hentry⟩ := hfresh
  rw [Classical.not_imp] at hentry
  obtain ⟨hentry, hstale⟩ := hentry
  refine List.sum_lt_sum _ _ (fun entry _ => ?_) ⟨entry, hentry, ?_⟩
  · split
    · exact Nat.le_refl _
    · exact Nat.zero_le _
  · -- Without points a module has no derived names.
    have hsome : pointsIn points entry.2 ≠ [] := by
      intro hnil
      rw [hnil] at hstale
      refine hstale ⟨fun _ hp => absurd hp List.not_mem_nil, ?_⟩
      simpa [allDerivedNames] using hnames entry.1 (List.fst_mem_of_mem_zipIdx hentry)
    rw [if_neg hstale, List.length_nil, List.length_map, List.length_pos_iff]
    intro hnil
    obtain ⟨p, hp⟩ := List.exists_mem_of_ne_nil _ hsome
    have hmem : p.function ∈ mutatedNames (pointsIn points entry.2) :=
      mem_mutatedNames.mpr ⟨p, hp, rfl⟩
    rw [hnil] at hmem
    exact absurd hmem List.not_mem_nil

end Program.Standing

end MutationLab
