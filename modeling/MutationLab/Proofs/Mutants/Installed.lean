import MutationLab.Proofs.Application.Reachable
import MutationLab.Proofs.Mutation
import MutationLab.Proofs.Simulation

/-! # Programs with all mutants

The modules of a program into which points have been put by registering and applying each of them
once (`Installed`), and the program in which one point only is mutated (`mutateOnly`). For every
function of the latter, the modules of the former hold a stand-in: the function itself, its
unmutated copy or the copy of a point, and the last two stand behind a trampoline
(`Installed.exists_standIn`, `Installed.exists_entry`). -/

namespace MutationLab

/-- Modules into which points have been put: on each module, calls were made that registered and
applied each of its points once. -/
structure Installed (ms : List Module) (points : List Point) (mutated : List Module) : Prop where
  length_eq : mutated.length = ms.length
  module_lt : ∀ p ∈ points, p.module < ms.length
  calls : ∀ id m, ms[id]? = some m → ∃ calls,
    ((Subject.ofModule id m).registered calls).Perm (points.filter (·.module = id)) ∧
    ((Subject.ofModule id m).applied calls).Perm (points.filter (·.module = id)) ∧
    mutated[id]? = some ((Subject.ofModule id m).after calls).module

/-- The point that a selector makes active. -/
def Point.active? (points : List Point) (selector : Option String) : Option Point :=
  points.find? fun p => selector = some p.id

/-- The function of a module with the active point mutated, if the point is one of its own. -/
def Function.mutateIf (active : Option Point) (id : ModuleId) (f : Function) : Function :=
  match active with
  | some p => if p.module = id ∧ p.function = f.name then p.mutate f else f
  | none => f

/-- The modules with the active point mutated and no other. -/
def mutateOnly (active : Option Point) (ms : List Module) : List Module :=
  ms.mapIdx fun id m => { m with functions := m.functions.map (Function.mutateIf active id) }

/-- The symbol of the function that runs in the place of another one: the copy of the active point
if it is on the function, or else the unmutated copy if any point is, or else the function
itself. -/
def standIn (mangling : Mangling) (points : List Point) (active : Option Point) (symbol : String) :
    String :=
  match active.filter fun p => mangling.mangle p.function = symbol with
  | some p => mangling.mangle p.cloneName
  | none =>
      if ∃ p ∈ points, mangling.mangle p.function = symbol then pristineName symbol else symbol

section

variable {mangling : Mangling} {points : List Point} {active : Option Point} {symbol : String}

/-- The copy of the active point runs in the place of its function. -/
theorem standIn_of_active {p : Point} (hactive : active = some p)
    (hsymbol : mangling.mangle p.function = symbol) :
    standIn mangling points active symbol = mangling.mangle p.cloneName := by
  rw [standIn, hactive, Option.filter_some, if_pos (decide_eq_true hsymbol)]

/-- In the place of any other function runs its unmutated copy if it has one, else the function. -/
theorem standIn_of_forall_active_ne
    (hactive : ∀ p, active = some p → mangling.mangle p.function ≠ symbol) :
    standIn mangling points active symbol =
      if ∃ p ∈ points, mangling.mangle p.function = symbol then pristineName symbol
      else symbol := by
  have hfilter : (active.filter fun p => mangling.mangle p.function = symbol) = none :=
    Option.filter_eq_none_iff.mpr fun p hp => by simpa using hactive p hp
  rw [standIn, hfilter]

/-- The unmutated copy runs in the place of any other function with points. -/
theorem standIn_of_exists (hactive : ∀ p, active = some p → mangling.mangle p.function ≠ symbol)
    (h : ∃ p ∈ points, mangling.mangle p.function = symbol) :
    standIn mangling points active symbol = pristineName symbol := by
  rw [standIn_of_forall_active_ne hactive, if_pos h]

/-- A function without points runs itself. -/
theorem standIn_of_forall_ne
    (hactive : ∀ p, active = some p → mangling.mangle p.function ≠ symbol)
    (h : ∀ p ∈ points, mangling.mangle p.function ≠ symbol) :
    standIn mangling points active symbol = symbol := by
  rw [standIn_of_forall_active_ne hactive, if_neg fun ⟨p, hp, hsymbol⟩ => h p hp hsymbol]

end

/-- The symbol of an unmutated copy. -/
theorem Mangling.mangle_pristineName (mangling : Mangling) (name : String) :
    mangling.mangle (pristineName name) = pristineName (mangling.mangle name) := by
  rw [Mangling.mangle, Mangling.mangle, pristineName, pristineName]
  exact (String.append_assoc ..).symm

namespace Function

variable {active : Option Point} {id : ModuleId} {f : Function}

/-- A function stays as it is, or the active point is on it. -/
theorem mutateIf_cases (active : Option Point) (id : ModuleId) (f : Function) :
    f.mutateIf active id = f ∨ ∃ p, active = some p ∧ p.module = id ∧ p.function = f.name ∧
      f.mutateIf active id = p.mutate f := by
  cases active with
  | none => exact .inl rfl
  | some p =>
    by_cases hp : p.module = id ∧ p.function = f.name
    · exact .inr ⟨p, rfl, hp.1, hp.2, if_pos hp⟩
    · exact .inl (if_neg hp)

/-- The function of the active point is mutated. -/
theorem mutateIf_of_active {p : Point} (hactive : active = some p) (hmodule : p.module = id)
    (hname : p.function = f.name) : f.mutateIf active id = p.mutate f := by
  rw [hactive]
  exact if_pos ⟨hmodule, hname⟩

/-- Any other function is not. -/
theorem mutateIf_of_forall_ne (h : ∀ p, active = some p → p.function ≠ f.name) :
    f.mutateIf active id = f := by
  cases active with
  | none => rfl
  | some p => exact if_neg fun hp => h p rfl hp.2

@[simp] theorem name_mutateIf : (f.mutateIf active id).name = f.name := by
  obtain heq | ⟨p, -, -, -, heq⟩ := mutateIf_cases active id f
  · rw [heq]
  · rw [heq, Point.name_mutate]

@[simp] theorem params_mutateIf : (f.mutateIf active id).params = f.params := by
  obtain heq | ⟨p, -, -, -, heq⟩ := mutateIf_cases active id f
  · rw [heq]
  · rw [heq, Point.params_mutate]

/-- The function is sound with or without the mutation. -/
theorem Sound.mutateIf (h : f.Sound) : (f.mutateIf active id).Sound := by
  obtain heq | ⟨p, -, -, -, heq⟩ := mutateIf_cases active id f
  · rw [heq]
    exact h
  · rw [heq]
    exact p.sound_mutate h

/-- The function uses no other symbols with the mutation. -/
theorem uses_mutateIf (c : Compilation) (active : Option Point) (id : ModuleId) (f : Function) :
    (c.function id (f.mutateIf active id)).uses ⊆ (c.function id f).uses := by
  obtain heq | ⟨p, -, -, -, heq⟩ := mutateIf_cases active id f
  · rw [heq]
    exact List.Subset.refl _
  · rw [heq]
    exact p.uses_mutate c id f

end Function

/-! ## One module -/

/-- What a module holds behind all steps for the points on it. -/
structure Module.Hosts (m mutated : Module) (points : List Point) : Prop where
  defined : ∀ p ∈ points, p.function ∈ m.functionNames
  distinct : ∀ p ∈ points, ∀ q ∈ points, p.cloneName = q.cloneName → p = q
  kept : ∀ f ∈ m.functions, (∀ p ∈ points, p.function ≠ f.name) → f ∈ mutated.functions
  pristine : ∀ f ∈ m.functions, (∃ p ∈ points, p.function = f.name) →
    f.named (pristineName f.name) ∈ mutated.functions
  mutant : ∀ f ∈ m.functions, ∀ p ∈ points, p.function = f.name →
    (p.mutate f).named p.cloneName ∈ mutated.functions
  trampoline : ∀ f ∈ m.functions, (∃ p ∈ points, p.function = f.name) →
    ∃ targets : List DispatchTarget, targets.Nodup ∧
    (∀ target, target ∈ targets ↔
      ∃ p ∈ points, p.function = f.name ∧ ⟨p.id, p.cloneName⟩ = target) ∧
    { name := f.name, params := f.params
      body := [{ operation := .dispatch (pristineName f.name) targets }] } ∈ mutated.functions

/-- Without points a module has to hold its functions only. -/
theorem Module.Hosts.of_functions_eq {m mutated : Module} (h : mutated.functions = m.functions) :
    m.Hosts mutated [] where
  defined _ hp := absurd hp List.not_mem_nil
  distinct _ hp := absurd hp List.not_mem_nil
  kept _ hf _ := h ▸ hf
  pristine _ _ := fun ⟨_, hp, _⟩ => absurd hp List.not_mem_nil
  mutant _ _ _ hp := absurd hp List.not_mem_nil
  trampoline _ _ := fun ⟨_, hp, _⟩ => absurd hp List.not_mem_nil

/-- **The layout of the last stage holds all of this**, when each point is applied once. -/
theorem Layout.hosts {m mutated : Module} {registered applied points : List Point}
    (hnames : m.functionNames.Nodup) (hfresh : Layout.Fresh m registered)
    (hfunctions : mutated.functions = Layout.functions m registered applied .applied)
    (hregistered : registered.Perm points) (happlied : applied.Perm points) :
    m.Hosts mutated points := by
  have hmutated : ∀ name, name ∈ mutatedNames registered ↔ ∃ p ∈ points, p.function = name := by
    intro name
    rw [mem_mutatedNames]
    exact exists_congr fun p => and_congr_left fun _ => hregistered.mem_iff
  have hfind : ∀ f ∈ m.functions, m.function? f.name = some f := fun f hf =>
    (Module.function?_eq_some_iff hnames).mpr ⟨hf, rfl⟩
  rw [Layout.functions] at hfunctions
  constructor
  · exact fun p hp => hfresh.defined p (hregistered.mem_iff.mpr hp)
  · exact fun p hp q hq heq =>
      hfresh.available.cloneName_injective (hregistered.mem_iff.mpr hp)
        (hregistered.mem_iff.mpr hq) heq
  · intro f hf hother
    rw [hfunctions]
    refine List.mem_append_left _ (List.mem_append_left _ (Layout.mem_kept hf ?_))
    rw [hmutated]
    rintro ⟨p, hp, hname⟩
    exact hother p hp hname
  · intro f hf hpoint
    rw [hfunctions]
    refine List.mem_append_left _ (List.mem_append_right _ ?_)
    exact Layout.mem_copies_pristine ((hmutated _).mpr hpoint) (hfind f hf)
  · intro f hf p hp hname
    -- Each point is applied once, so its copy is mutated once.
    have happliedOnce : applied.Nodup :=
      (happlied.trans hregistered.symm).nodup_iff.mpr hfresh.available.nodup_registered
    have hcount : applied.count p = 1 :=
      List.count_eq_one_of_mem happliedOnce (happlied.mem_iff.mpr hp)
    have hcopy : (p.mutate^[applied.count p] f).named p.cloneName ∈
        Layout.copies m registered applied :=
      Layout.mem_copies_mutant (hregistered.mem_iff.mpr hp) (hname ▸ hfind f hf)
    rw [hcount, Function.iterate_one] at hcopy
    rw [hfunctions]
    exact List.mem_append_left _ (List.mem_append_right _ hcopy)
  · intro f hf hpoint
    obtain ⟨q, hq, hqname⟩ := hpoint
    refine ⟨(pointsOn registered f.name).map fun p => ⟨p.id, p.cloneName⟩, ?_, ?_, ?_⟩
    · have hcallees := hfresh.available.nodup_map_cloneName (hregistered.mem_iff.mpr hq)
      rw [hqname] at hcallees
      refine List.Nodup.of_map DispatchTarget.callee ?_
      rw [List.map_map]
      exact hcallees
    · intro target
      rw [List.mem_map]
      refine exists_congr fun p => ?_
      rw [mem_pointsOn, hregistered.mem_iff, and_assoc]
    · rw [hfunctions]
      exact List.mem_append_right _
        (Layout.mem_trampolines ((hmutated _).mpr ⟨q, hq, hqname⟩) (hfind f hf))

/-- **Registering and applying each point once** makes a module that holds all of this. -/
theorem Subject.Reached.hosts {id : ModuleId} {m : Module} {registered applied points : List Point}
    {s : Subject} (hnames : m.functionNames.Nodup) (h : Reached id m registered applied s)
    (hregistered : registered.Perm points) (happlied : applied.Perm points) :
    m.Hosts s.module points := by
  by_cases hnil : points = []
  · -- Without points the module is as it was loaded.
    subst hnil
    have hstage := h.stage_eq_pristine.mpr hregistered.eq_nil
    refine .of_functions_eq ?_
    rw [h.module_eq, hstage]
    rfl
  · -- Each point has been applied, and that happens in the last stage only.
    have hstage : s.stage = .applied := by
      by_contra hother
      have hempty := h.applied_eq_nil hother
      rw [hempty] at happlied
      exact hnil happlied.nil_eq.symm
    have hfresh : Layout.Fresh m registered := h.fresh (by rw [hstage]; decide)
    refine Layout.hosts hnames hfresh ?_ hregistered happlied
    rw [h.module_eq, hstage]

/-! ## The active point -/

namespace Point

variable {points : List Point} {selector : Option String} {p : Point}

/-- The active point is one of the points, and its id is selected. -/
theorem of_active?_eq_some (h : active? points selector = some p) :
    p ∈ points ∧ selector = some p.id :=
  ⟨List.mem_of_find?_eq_some h, by simpa using List.find?_some h⟩

/-- Where ids are distinct, a point whose id is selected is active. -/
theorem active?_eq_some (hids : (points.map Point.id).Nodup) (hp : p ∈ points)
    (hselector : selector = some p.id) : active? points selector = some p := by
  cases hactive : active? points selector with
  | none =>
    have hother := List.find?_eq_none.mp hactive p hp
    exact absurd (decide_eq_true hselector) hother
  | some q =>
    obtain ⟨hq, hid⟩ := of_active?_eq_some hactive
    rw [hselector, Option.some.injEq] at hid
    rw [List.inj_on_of_nodup_map hids hp hq hid]

end Point

/-! ## Whole programs -/

namespace Installed

variable {ms mutated : List Module} {points : List Point}

/-- Every module holds what the steps for its points have made of it. -/
theorem hosts (h : Installed ms points mutated) {id : ModuleId} {m : Module}
    (hm : ms[id]? = some m) (hsound : m.Sound) :
    ∃ n, mutated[id]? = some n ∧ m.Hosts n (points.filter (·.module = id)) := by
  obtain ⟨calls, hregistered, happlied, hn⟩ := h.calls id m hm
  refine ⟨_, hn, ?_⟩
  -- What is applied is registered, as both are the points of the module.
  have hreached := (Subject.Reached.ofModule id m).after hsound.nodup
    (fun p hp => hregistered.mem_iff.mpr (happlied.mem_iff.mp hp) : ∀ p ∈
      (Subject.ofModule id m).applied calls, p ∈ [] ++ (Subject.ofModule id m).registered calls)
  exact hreached.hosts hsound.nodup hregistered happlied

section

variable {c : Compilation} {extra : List ObjectFile} (h : Installed ms points mutated)
  (hsound : ∀ m ∈ ms, m.Sound)

include h hsound

/-- Every point is on a function of its module. -/
theorem exists_function {p : Point} (hp : p ∈ points) :
    ∃ m f, ms[p.module]? = some m ∧ f ∈ m.functions ∧ f.name = p.function := by
  obtain ⟨m, hm⟩ : ∃ m, ms[p.module]? = some m :=
    ⟨_, List.getElem?_eq_getElem (h.module_lt p hp)⟩
  obtain ⟨n, -, hhosts⟩ := h.hosts hm (hsound m (List.mem_of_getElem? hm))
  obtain ⟨f, hf, hname⟩ := List.mem_map.mp
    (hhosts.defined p (List.mem_filter.mpr ⟨hp, decide_eq_true rfl⟩))
  exact ⟨m, f, hm, hf, hname⟩

variable (hdistinct : ((c.programFunctions ms extra).map CompiledFunction.symbol).Nodup)

include hdistinct

/-- A point on the symbol of a function is a point of its module on its name. -/
theorem of_mangle_eq {id : ModuleId} {m : Module} (hm : ms[id]? = some m) {f : Function}
    (hf : f ∈ m.functions) {p : Point} (hp : p ∈ points)
    (hsymbol : c.mangling.mangle p.function = c.mangling.mangle f.name) :
    p.module = id ∧ p.function = f.name := by
  have hname := c.mangling.mangle_injective hsymbol
  -- The name is defined in one module of the program, that of the point.
  obtain ⟨n, g, hn, hg, hgname⟩ := h.exists_function hsound hp
  exact ⟨Compilation.id_eq_of_name_eq hdistinct hm hf hn hg (hgname.trans hname), hname⟩

/-- No point is on the symbol of a function of an object file. -/
theorem mangle_ne_of_mem_extra {o : ObjectFile} (ho : o ∈ extra) {g : CompiledFunction}
    (hg : g ∈ o.functions) {p : Point} (hp : p ∈ points) :
    c.mangling.mangle p.function ≠ g.symbol := by
  obtain ⟨n, f, hn, hf, hname⟩ := h.exists_function hsound hp
  rw [← hname]
  exact (Compilation.symbol_ne_mangle hdistinct hn hf ho hg).symm

/-- A function has points when its module has points on it. -/
theorem exists_local {id : ModuleId} {m : Module} (hm : ms[id]? = some m) {f : Function}
    (hf : f ∈ m.functions)
    (hpoint : ∃ p ∈ points, c.mangling.mangle p.function = c.mangling.mangle f.name) :
    ∃ p ∈ points.filter (·.module = id), p.function = f.name := by
  obtain ⟨p, hp, hsymbol⟩ := hpoint
  obtain ⟨hmodule, hname⟩ := h.of_mangle_eq hsound hdistinct hm hf hp hsymbol
  exact ⟨p, List.mem_filter.mpr ⟨hp, decide_eq_true hmodule⟩, hname⟩

/-- **Every function of a module has a stand-in** in the mutated module. -/
theorem exists_standIn {id : ModuleId} {m : Module} (hm : ms[id]? = some m) {f : Function}
    (hf : f ∈ m.functions) (selector : Option String) :
    ∃ n, mutated[id]? = some n ∧ ∃ name,
      (f.mutateIf (Point.active? points selector) id).named name ∈ n.functions ∧
      c.mangling.mangle name = standIn c.mangling points (Point.active? points selector)
        (c.mangling.mangle f.name) := by
  obtain ⟨n, hn, hhosts⟩ := h.hosts hm (hsound m (List.mem_of_getElem? hm))
  refine ⟨n, hn, ?_⟩
  by_cases hon : ∃ p, Point.active? points selector = some p ∧
      c.mangling.mangle p.function = c.mangling.mangle f.name
  · -- The active point is on the function, so its copy runs.
    obtain ⟨p, hactive, hsymbol⟩ := hon
    obtain ⟨hp, -⟩ := Point.of_active?_eq_some hactive
    obtain ⟨hmodule, hname⟩ := h.of_mangle_eq hsound hdistinct hm hf hp hsymbol
    rw [Function.mutateIf_of_active hactive hmodule hname, standIn_of_active hactive hsymbol]
    exact ⟨_, hhosts.mutant f hf p
      (List.mem_filter.mpr ⟨hp, decide_eq_true hmodule⟩) hname, rfl⟩
  · have hoff : ∀ p, Point.active? points selector = some p →
        c.mangling.mangle p.function ≠ c.mangling.mangle f.name :=
      fun p hactive hsymbol => hon ⟨p, hactive, hsymbol⟩
    rw [Function.mutateIf_of_forall_ne fun p hactive hname => hoff p hactive (congrArg _ hname)]
    by_cases hpoint : ∃ p ∈ points, c.mangling.mangle p.function = c.mangling.mangle f.name
    · rw [standIn_of_exists hoff hpoint]
      exact ⟨_, hhosts.pristine f hf (h.exists_local hsound hdistinct hm hf hpoint),
        c.mangling.mangle_pristineName f.name⟩
    · have hnone : ∀ p ∈ points, c.mangling.mangle p.function ≠ c.mangling.mangle f.name :=
        fun p hp hsymbol => hpoint ⟨p, hp, hsymbol⟩
      rw [standIn_of_forall_ne hoff hnone]
      exact ⟨f.name, hhosts.kept f hf fun p hp hname =>
        hnone p (List.mem_filter.mp hp).1 (congrArg _ hname), rfl⟩

/-- **A function with points has a trampoline**: its targets are the copies of the points, each of
them once. -/
theorem exists_trampoline {id : ModuleId} {m : Module} (hm : ms[id]? = some m) {f : Function}
    (hf : f ∈ m.functions)
    (hpoint : ∃ p ∈ points, c.mangling.mangle p.function = c.mangling.mangle f.name) :
    ∃ n, mutated[id]? = some n ∧ ∃ targets : List DispatchTarget, targets.Nodup ∧
      (∀ target, target ∈ targets ↔ ∃ q ∈ points,
        q.module = id ∧ q.function = f.name ∧ ⟨q.id, q.cloneName⟩ = target) ∧
      { name := f.name, params := f.params
        body := [{ operation := .dispatch (pristineName f.name) targets }] } ∈ n.functions := by
  obtain ⟨n, hn, hhosts⟩ := h.hosts hm (hsound m (List.mem_of_getElem? hm))
  obtain ⟨targets, hnodup, htargets, ht⟩ :=
    hhosts.trampoline f hf (h.exists_local hsound hdistinct hm hf hpoint)
  refine ⟨n, hn, targets, hnodup, fun target => ?_, ht⟩
  rw [htargets]
  refine exists_congr fun q => ?_
  rw [List.mem_filter, decide_eq_true_eq, and_assoc]

/-- **A trampoline chooses the stand-in** of its function. -/
theorem choice_targets (hids : (points.map Point.id).Nodup) {id : ModuleId} {m : Module}
    (hm : ms[id]? = some m) {f : Function} (hf : f ∈ m.functions)
    (hpoint : ∃ p ∈ points, c.mangling.mangle p.function = c.mangling.mangle f.name)
    {targets : List DispatchTarget} (htargets : ∀ target, target ∈ targets ↔ ∃ q ∈ points,
      q.module = id ∧ q.function = f.name ∧ ⟨q.id, q.cloneName⟩ = target)
    (selector : Option String) :
    choice selector (c.mangling.mangle (pristineName f.name))
        (targets.map fun target => (target.mutant, c.mangling.mangle target.callee)) =
      standIn c.mangling points (Point.active? points selector) (c.mangling.mangle f.name) := by
  -- The targets are the points on the function, and their ids are distinct.
  have htarget : ∀ target ∈ targets.map fun target =>
      (target.mutant, c.mangling.mangle target.callee), ∃ q ∈ points,
        q.function = f.name ∧ target = (q.id, c.mangling.mangle q.cloneName) := by
    intro target hmem
    obtain ⟨dispatched, hdispatched, rfl⟩ := List.mem_map.mp hmem
    obtain ⟨q, hq, -, hname, rfl⟩ := (htargets dispatched).mp hdispatched
    exact ⟨q, hq, hname, rfl⟩
  by_cases hon : ∃ p, Point.active? points selector = some p ∧
      c.mangling.mangle p.function = c.mangling.mangle f.name
  · obtain ⟨p, hactive, hsymbol⟩ := hon
    obtain ⟨hp, rfl⟩ := Point.of_active?_eq_some hactive
    obtain ⟨hmodule, hname⟩ := h.of_mangle_eq hsound hdistinct hm hf hp hsymbol
    rw [standIn_of_active hactive hsymbol]
    refine choice_eq_of_mem ?_ ?_ _
    · exact List.mem_map.mpr
        ⟨⟨p.id, p.cloneName⟩, (htargets _).mpr ⟨p, hp, hmodule, hname, rfl⟩, rfl⟩
    · intro target hmem hid
      obtain ⟨q, hq, -, rfl⟩ := htarget target hmem
      rw [List.inj_on_of_nodup_map hids hq hp hid]
  · have hoff : ∀ p, Point.active? points selector = some p →
        c.mangling.mangle p.function ≠ c.mangling.mangle f.name :=
      fun p hactive hsymbol => hon ⟨p, hactive, hsymbol⟩
    rw [standIn_of_exists hoff hpoint, ← c.mangling.mangle_pristineName]
    refine choice_eq_pristine ?_ _
    intro target hmem hselected
    obtain ⟨q, hq, hname, rfl⟩ := htarget target hmem
    exact hoff q (Point.active?_eq_some hids hq hselected) (congrArg _ hname)

/-- **Under the name of every function** stands its stand-in or a trampoline that chooses it. -/
theorem exists_entry (hids : (points.map Point.id).Nodup) {id : ModuleId} {m : Module}
    (hm : ms[id]? = some m) {f : Function} (hf : f ∈ m.functions) (selector : Option String) :
    ∃ n, mutated[id]? = some n ∧ ∃ t ∈ n.functions, t.name = f.name ∧ t.params = f.params ∧
      (standIn c.mangling points (Point.active? points selector) (c.mangling.mangle f.name) =
          c.mangling.mangle f.name ∨
        ∃ targets, t.body = [{ operation := .dispatch (pristineName f.name) targets }] ∧
          choice selector (c.mangling.mangle (pristineName f.name))
            (targets.map fun target => (target.mutant, c.mangling.mangle target.callee)) =
          standIn c.mangling points (Point.active? points selector)
            (c.mangling.mangle f.name)) := by
  by_cases hpoint : ∃ p ∈ points, c.mangling.mangle p.function = c.mangling.mangle f.name
  · obtain ⟨n, hn, targets, -, htargets, ht⟩ := h.exists_trampoline hsound hdistinct hm hf hpoint
    have hchoice := h.choice_targets hsound hdistinct hids hm hf hpoint htargets selector
    exact ⟨n, hn, _, ht, rfl, rfl, .inr ⟨targets, rfl, hchoice⟩⟩
  · have hnone : ∀ p ∈ points, c.mangling.mangle p.function ≠ c.mangling.mangle f.name :=
      fun p hp hsymbol => hpoint ⟨p, hp, hsymbol⟩
    obtain ⟨n, hn, hhosts⟩ := h.hosts hm (hsound m (List.mem_of_getElem? hm))
    rw [standIn_of_forall_ne (fun p hactive => hnone p (Point.of_active?_eq_some hactive).1) hnone]
    exact ⟨n, hn, f, hhosts.kept f hf fun p hp hname =>
      hnone p (List.mem_filter.mp hp).1 (congrArg _ hname), rfl, rfl, .inl rfl⟩

end

end Installed

end MutationLab
