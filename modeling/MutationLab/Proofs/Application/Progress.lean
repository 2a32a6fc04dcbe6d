import MutationLab.Proofs.Application.Reachable

/-! # Steps that go through

From a module as it is loaded, the steps go through in their order: copying exactly when the derived
names are fresh (`Standing.clone`, `Standing.clone_refused`), cutting out and redirecting always,
and applying a point wherever its operator has a site. `Standing` follows a module through them. -/

namespace MutationLab

namespace Subject

/-! ## What makes a step succeed -/

/-- Copies can be made for points whose names are free and distinct. -/
theorem exists_mutantCopies_eq_ok {m : Module} (source : Function) {taken : List String}
    {points : List Point} (hfree : ∀ p ∈ points, p.cloneName ∉ m.functionNames)
    (hnodup : (taken ++ points.map Point.cloneName).Nodup) :
    ∃ fs, mutantCopies m source taken points = .ok fs := by
  induction points generalizing taken with
  | nil => exact ⟨[], rfl⟩
  | cons p points ih =>
    rw [List.forall_mem_cons] at hfree
    have hnew : p.cloneName ∉ taken := by
      intro hmem
      exact (List.nodup_append.mp hnodup).2.2 _ hmem _ List.mem_cons_self rfl
    have hnodup' : ((taken ++ [p.cloneName]) ++ points.map Point.cloneName).Nodup := by
      rwa [List.append_assoc, List.singleton_append]
    obtain ⟨fs, hfs⟩ := ih hfree.2 hnodup'
    rw [mutantCopies, if_neg (not_or.mpr ⟨by rw [Module.defines_iff]; exact hfree.1, hnew⟩), hfs]
    exact ⟨_, rfl⟩

/-- A function can be copied when it is there and its derived names are free and distinct. -/
theorem exists_copies_eq_ok {m : Module} {name : String} {points : List Point}
    (hdefined : name ∈ m.functionNames) (hnodup : (derivedNames name points).Nodup)
    (hfree : ∀ derived ∈ derivedNames name points, derived ∉ m.functionNames) :
    ∃ fs, copies m name points = .ok fs := by
  obtain ⟨source, hsource⟩ := Module.exists_function?_eq_some hdefined
  have hpristine : pristineName name ∉ m.functionNames :=
    hfree _ (mem_derivedNames.mpr (.inl rfl))
  have hdistinct : ([pristineName name] ++ points.map Point.cloneName).Nodup := hnodup
  obtain ⟨fs, hfs⟩ := exists_mutantCopies_eq_ok source
    (fun p hp => hfree _ (mem_derivedNames.mpr (.inr ⟨p, hp, rfl⟩))) hdistinct
  rw [copies, hsource]
  dsimp only
  rw [if_neg (by rwa [Module.defines_iff]), hfs]
  exact ⟨_, rfl⟩

/-- **All copies can be made** when the derived names are available. -/
theorem exists_allCopies_eq_ok {m : Module} {points : List Point} (h : Layout.Available m points) :
    ∃ fs, allCopies m (Pending.ofPoints points) = .ok fs := by
  have hnames : ∀ names : List String, (∀ name ∈ names, name ∈ mutatedNames points) →
      ∃ fs, allCopies m (names.map fun name => (name, pointsOn points name)) = .ok fs := by
    intro names
    induction names with
    | nil => exact fun _ => ⟨[], rfl⟩
    | cons name names ih =>
      intro hmutated
      rw [List.forall_mem_cons] at hmutated
      have hderived : derivedNames name (pointsOn points name) ⊆ allDerivedNames points :=
        fun derived hderived => List.mem_flatMap.mpr ⟨name, hmutated.1, hderived⟩
      obtain ⟨first, hfirst⟩ := exists_copies_eq_ok (h.mem_functionNames hmutated.1)
        ((List.nodup_flatMap.mp h.nodup).1 name hmutated.1)
        (fun derived hmem => h.free derived (hderived hmem))
      obtain ⟨others, hothers⟩ := ih hmutated.2
      rw [List.map_cons, allCopies, hfirst, hothers]
      exact ⟨_, rfl⟩
  exact hnames _ fun _ hname => hname

/-- Trampolines can be made under names that are free, where the unmutated copies are there. -/
theorem exists_trampolines_eq_ok {m : Module} {pending : Pending}
    (hfree : ∀ entry ∈ pending, entry.1 ∉ m.functionNames)
    (hcopies : ∀ entry ∈ pending, pristineName entry.1 ∈ m.functionNames) :
    ∃ fs, trampolines m pending = .ok fs := by
  induction pending with
  | nil => exact ⟨[], rfl⟩
  | cons entry rest ih =>
    rw [List.forall_mem_cons] at hfree hcopies
    obtain ⟨others, hothers⟩ := ih hfree.2 hcopies.2
    obtain ⟨pristine, hpristine⟩ := Module.exists_function?_eq_some hcopies.1
    rw [trampolines, if_neg (by rw [Module.defines_iff]; exact hfree.1), hpristine, hothers]
    exact ⟨_, rfl⟩

/-! ## A module on its way -/

/-- Module `id` was loaded with the code `loaded`; the points are registered in it, some of them are
applied, and if there are any, it stands at one of the stages. -/
structure Standing (id : ModuleId) (loaded : Module) (points applied : List Point)
    (stages : List Stage) (s : Subject) : Prop where
  reached : Reached id loaded points applied s
  stage_mem : points ≠ [] → s.stage ∈ stages

namespace Standing

variable {id : ModuleId} {loaded : Module} {points applied : List Point} {stages : List Stage}
  {s : Subject}

/-- More stages say less. -/
theorem mono {stages' : List Stage} (h : Standing id loaded points applied stages s)
    (hsubset : stages ⊆ stages') : Standing id loaded points applied stages' s :=
  ⟨h.reached, fun hne => hsubset (h.stage_mem hne)⟩

/-- Where points are pending, points are registered, so the stage is known. -/
theorem stage_of_pending (h : Standing id loaded points applied stages s)
    (hpending : s.pending ≠ []) :
    s.stage ∈ stages :=
  h.stage_mem (h.reached.registered_ne_nil hpending)

/-- Without points there is nothing to be done. -/
theorem pending_eq_nil (h : Standing id loaded [] applied stages s) : s.pending = [] := by
  rw [h.reached.pending_eq, Pending.ofPoints_nil]

/-- Where points are registered, points are pending. -/
theorem isEmpty_pending (h : Standing id loaded points applied stages s) (hpoints : points ≠ []) :
    s.pending.isEmpty = false := by
  rw [List.isEmpty_eq_false_iff, h.reached.pending_eq]
  exact fun hnil => hpoints (Pending.ofPoints_eq_nil.mp hnil)

/-- A module as it is loaded stands anywhere. -/
theorem ofModule (id : ModuleId) (loaded : Module) :
    Standing id loaded [] [] stages (.ofModule id loaded) :=
  ⟨Reached.ofModule id loaded, fun hne => absurd rfl hne⟩

/-- **A point of the module can be registered** as long as nothing is copied. -/
theorem register (h : Standing id loaded points [] [.registered] s) {p : Point}
    (hmodule : p.module = id) :
    ∃ t, s.register p = (.ok (), t) ∧ Standing id loaded (points ++ [p]) [] [.registered] t := by
  have hrank : ¬ Stage.registered.rank < s.stage.rank := by
    by_cases hnil : points = []
    · rw [h.reached.stage_eq_pristine.mpr hnil]
      decide
    · rw [List.mem_singleton.mp (h.stage_mem hnil)]
      decide
  have hcall : s.register p =
      (.ok (), { s with pending := Pending.add p s.pending, stage := .registered }) := by
    rw [Subject.register, if_neg (by rw [hmodule, h.reached.id_eq]; exact fun hne => hne rfl),
      if_neg hrank]
  exact ⟨_, hcall, h.reached.register hcall, fun _ => List.mem_singleton_self _⟩

/-- **The mutated functions can be copied** when the derived names are fresh. -/
theorem clone (h : Standing id loaded points [] [.registered] s)
    (hfresh : Layout.Fresh loaded points) :
    ∃ t, s.clone = (.ok (mutatedNames points), t) ∧ Standing id loaded points [] [.cloned] t := by
  by_cases hnil : points = []
  · subst hnil
    refine ⟨s, ?_, h.reached, fun hne => absurd rfl hne⟩
    rw [Subject.clone, h.pending_eq_nil, mutatedNames_nil]
    rfl
  · have hstage : s.stage = .registered := List.mem_singleton.mp (h.stage_mem hnil)
    have hmodule : s.module = loaded := h.reached.module_eq_loaded (by rw [hstage])
    obtain ⟨fs, hfs⟩ := exists_allCopies_eq_ok hfresh.available
    have hclone : s.clone = (.ok (mutatedNames points),
        { s with module := s.module.append fs, stage := .cloned }) := by
      rw [Subject.clone, h.isEmpty_pending hnil, if_neg Bool.false_ne_true,
        if_neg (not_not.mpr hstage), hmodule, h.reached.pending_eq, hfs, Pending.map_fst_ofPoints]
    have hcall : s.perform .clone =
        (.ok (), { s with module := s.module.append fs, stage := .cloned }) := by
      rw [perform, hclone]
      rfl
    exact ⟨_, hclone, h.reached.clone hfresh.nodup_loaded hcall, fun _ => List.mem_singleton_self _⟩

/-- Copying is refused exactly when the copies cannot be made, and then nothing has changed. -/
theorem clone_eq_error_iff (h : Standing id loaded points [] [.registered] s)
    {e : ApplicationError} {t : Subject} :
    s.clone = (.error e, t) ↔ t = s ∧ allCopies loaded (Pending.ofPoints points) = .error e := by
  by_cases hnil : points = []
  · subst hnil
    rw [Subject.clone, h.pending_eq_nil, Pending.ofPoints_nil]
    refine iff_of_false (fun hclone => ?_) (fun hcopies => ?_)
    · cases hclone
    · cases hcopies.2
  · have hstage : s.stage = .registered := List.mem_singleton.mp (h.stage_mem hnil)
    have hmodule : s.module = loaded := h.reached.module_eq_loaded (by rw [hstage])
    rw [Subject.clone, h.isEmpty_pending hnil, if_neg Bool.false_ne_true,
      if_neg (not_not.mpr hstage), hmodule, h.reached.pending_eq]
    cases allCopies loaded (Pending.ofPoints points) with
    | ok fs => simp
    | error e' => simp [refuse, and_comm, eq_comm]

/-- If derived names are not fresh, copying is refused. -/
theorem clone_refused (h : Standing id loaded points [] [.registered] s)
    (hnames : loaded.functionNames.Nodup) (hfresh : ¬ Layout.Fresh loaded points) :
    ∃ e, s.clone = (.error e, s) := by
  cases hfs : allCopies loaded (Pending.ofPoints points) with
  | error e => exact ⟨e, h.clone_eq_error_iff.mpr ⟨rfl, hfs⟩⟩
  | ok fs => exact absurd (allCopies_ofPoints_eq_ok hnames hfs).2 hfresh

/-- **The mutated functions can be cut out** once they are copied. -/
theorem excise (h : Standing id loaded points [] [.cloned] s) :
    ∃ t, s.excise = (.ok (), t) ∧ Standing id loaded points [] [.excised] t := by
  by_cases hnil : points = []
  · subst hnil
    refine ⟨s, ?_, h.reached, fun hne => absurd rfl hne⟩
    rw [Subject.excise, h.pending_eq_nil]
    rfl
  · have hstage : s.stage = .cloned := List.mem_singleton.mp (h.stage_mem hnil)
    obtain ⟨t, hcall, ht⟩ : ∃ t, s.excise = (.ok (), t) ∧ t.stage = .excised := by
      rw [Subject.excise, h.isEmpty_pending hnil, if_neg Bool.false_ne_true,
        if_neg (not_not.mpr hstage), h.reached.removeAll_eq_ok hstage]
      exact ⟨_, rfl, rfl⟩
    exact ⟨t, hcall, h.reached.excise hcall, fun _ => ht ▸ List.mem_singleton_self _⟩

/-- **Trampolines can be put in their place.** -/
theorem redirect (h : Standing id loaded points [] [.excised] s) :
    ∃ t, s.redirect = (.ok (), t) ∧ Standing id loaded points [] [.redirected] t := by
  by_cases hnil : points = []
  · subst hnil
    refine ⟨s, ?_, h.reached, fun hne => absurd rfl hne⟩
    rw [Subject.redirect, h.pending_eq_nil]
    rfl
  · have hstage : s.stage = .excised := List.mem_singleton.mp (h.stage_mem hnil)
    have hfresh : Layout.Fresh loaded points := h.reached.fresh (by rw [hstage]; decide)
    have hnames : s.module.functionNames =
        (Layout.kept loaded points).map Function.name ++ allDerivedNames points := by
      have hcopies : (Layout.copies loaded points []).map Function.name = allDerivedNames points :=
        hfresh.available.map_name_copies
      rw [h.reached.module_eq, hstage, Module.functionNames, ← hcopies]
      exact List.map_append
    have hentry : ∀ entry ∈ s.pending, entry.1 ∈ mutatedNames points := by
      intro entry hentry
      rw [← Pending.map_fst_ofPoints, ← h.reached.pending_eq]
      exact List.mem_map_of_mem hentry
    obtain ⟨fs, hfs⟩ : ∃ fs, trampolines s.module s.pending = .ok fs := by
      refine exists_trampolines_eq_ok (fun entry hmem => ?_) fun entry hmem => ?_
      · -- The function has made room, and no derived name is that of a loaded function.
        rw [hnames, List.mem_append]
        rintro (hkept | hderived)
        · exact (Layout.of_mem_map_name_kept hkept).2 (hentry entry hmem)
        · exact hfresh.available.free _ hderived
            (hfresh.available.mem_functionNames (hentry entry hmem))
      · rw [hnames]
        refine List.mem_append_right _ (List.mem_flatMap.mpr ⟨entry.1, hentry entry hmem, ?_⟩)
        exact mem_derivedNames.mpr (.inl rfl)
    have hcall : s.redirect =
        (.ok (), { s with module := s.module.append fs, stage := .redirected }) := by
      rw [Subject.redirect, h.isEmpty_pending hnil, if_neg Bool.false_ne_true,
        if_neg (not_not.mpr hstage), hfs]
    exact ⟨_, hcall, h.reached.redirect hcall, fun _ => List.mem_singleton_self _⟩

/-- **A point can be applied** where its operator has a site, if it has not been applied. -/
theorem apply (h : Standing id loaded points applied [.redirected, .applied] s) {p : Point}
    (hp : p ∈ points) (hmodule : p.module = id) (hnew : p ∉ applied) {f : Function}
    (hf : loaded.function? p.function = some f)
    (hsite : (mutateAt p.operator p.instruction f.body).isSome) :
    ∃ t, s.apply p = (.ok (), t) ∧
      Standing id loaded points (applied ++ [p]) [.redirected, .applied] t := by
  have hstage : s.stage = .redirected ∨ s.stage = .applied := by
    have hmem := h.stage_mem (List.ne_nil_of_mem hp)
    simpa using hmem
  -- The copy of the point has not been mutated yet.
  have hcopy : s.module.function? p.cloneName = some (f.named p.cloneName) := by
    have hfound := h.reached.function?_cloneName hstage hp hf
    rwa [List.count_eq_zero_of_not_mem hnew] at hfound
  obtain ⟨body, hbody⟩ := Option.isSome_iff_exists.mp hsite
  have hcall : s.apply p = (.ok (), { s with
      module := s.module.modify p.cloneName fun f => { f with body }
      stage := .applied }) := by
    have hready : ¬ (s.stage ≠ .redirected ∧ s.stage ≠ .applied) := by
      rintro ⟨hredirected, happlied⟩
      exact hstage.elim hredirected happlied
    rw [Subject.apply, if_neg (by rw [hmodule, h.reached.id_eq]; exact fun hne => hne rfl),
      if_neg hready, hcopy]
    dsimp only
    rw [Function.body_named, hbody]
  exact ⟨_, hcall, h.reached.apply hp hcall, fun _ => by simp⟩

/-- **Once all points are applied**, the code is the layout of all of them. -/
theorem module_eq (h : Standing id loaded points points stages s) :
    s.module = { loaded with functions := Layout.functions loaded points points .applied } := by
  rw [h.reached.module_eq]
  by_cases hstage : s.stage = .applied
  · rw [hstage]
  · obtain rfl := h.reached.applied_eq_nil hstage
    rw [h.reached.stage_eq_pristine.mpr rfl, Layout.functions_nil]
    rfl

end Standing

end Subject

end MutationLab
