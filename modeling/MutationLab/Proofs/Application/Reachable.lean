import MutationLab.Proofs.Application.Calls
import MutationLab.Proofs.Application.Layout

/-! # Reachable subjects

`Reached` ties a subject to its history: the points that calls have registered and applied in it.
Its code is the layout of that history at its stage, and behind the first stages the derived names
are fresh. Every call keeps this (`Reached.perform`), so every sequence of calls does, in any order
and with any failures (`Reached.after`); the stage never goes back. -/

namespace MutationLab

namespace Subject

/-! ## What the steps compute -/

/-- Copies for points are made only under names that are free and distinct. -/
theorem mutantCopies_eq_ok {m : Module} {source : Function} {taken : List String}
    {points : List Point} {fs : List Function} (htaken : taken.Nodup)
    (h : mutantCopies m source taken points = .ok fs) :
    fs = (points.map fun p => source.named p.cloneName) ∧
      (∀ p ∈ points, p.cloneName ∉ m.functionNames) ∧
      (taken ++ points.map Point.cloneName).Nodup := by
  induction points generalizing taken fs with
  | nil =>
    rw [mutantCopies, Except.ok.injEq] at h
    exact ⟨h.symm, by simp, by simpa using htaken⟩
  | cons p points ih =>
    rw [mutantCopies] at h
    split at h
    · cases h
    · rename_i hfree
      rw [not_or, Module.defines_iff] at hfree
      obtain ⟨rest, hrest, rfl⟩ := map_eq_ok_iff.mp h
      -- The name of this copy is taken for the copies that follow.
      have htaken' : (taken ++ [p.cloneName]).Nodup := by
        rw [List.nodup_append]
        refine ⟨htaken, List.nodup_singleton _, ?_⟩
        rintro name hname _ hp rfl
        exact hfree.2 (List.mem_singleton.mp hp ▸ hname)
      obtain ⟨hfs, hundefined, hnodup⟩ := ih htaken' hrest
      refine ⟨by rw [hfs, List.map_cons], ?_, ?_⟩
      · intro q hq
        obtain rfl | hq := List.mem_cons.mp hq
        · exact hfree.1
        · exact hundefined q hq
      · rwa [List.append_assoc, List.singleton_append, ← List.map_cons] at hnodup

/-- The copies of one function are those of its layout, under free and distinct names. -/
theorem copies_eq_ok {m : Module} {name : String} {registered : List Point} {fs : List Function}
    (h : copies m name (pointsOn registered name) = .ok fs) :
    fs = Layout.copiesOf m registered [] name ∧ name ∈ m.functionNames ∧
      (derivedNames name (pointsOn registered name)).Nodup ∧
      ∀ derived ∈ derivedNames name (pointsOn registered name), derived ∉ m.functionNames := by
  rw [copies] at h
  cases hsource : m.function? name with
  | none =>
    rw [hsource] at h
    cases h
  | some source =>
    rw [hsource] at h
    dsimp only at h
    split at h
    · cases h
    · rename_i hfree
      rw [Module.defines_iff] at hfree
      obtain ⟨rest, hrest, rfl⟩ := map_eq_ok_iff.mp h
      obtain ⟨hfs, hundefined, hnodup⟩ := mutantCopies_eq_ok (List.nodup_singleton _) hrest
      refine ⟨?_, ?_, hnodup, ?_⟩
      · rw [Layout.copiesOf, hsource, hfs]
        rfl
      · obtain ⟨hmem, rfl⟩ := Module.mem_of_function?_eq_some hsource
        exact List.mem_map_of_mem hmem
      · intro derived hderived
        obtain rfl | ⟨p, hp, rfl⟩ := mem_derivedNames.mp hderived
        · exact hfree
        · exact hundefined p hp

/-- The copies of functions are those of their layouts, under free and distinct names. -/
theorem allCopies_eq_ok {m : Module} {registered : List Point} {names : List String}
    {fs : List Function}
    (h : allCopies m (names.map fun name => (name, pointsOn registered name)) = .ok fs) :
    fs = names.flatMap (Layout.copiesOf m registered []) ∧ ∀ name ∈ names,
      name ∈ m.functionNames ∧ (derivedNames name (pointsOn registered name)).Nodup ∧
      ∀ derived ∈ derivedNames name (pointsOn registered name), derived ∉ m.functionNames := by
  induction names generalizing fs with
  | nil =>
    rw [List.map_nil, allCopies, Except.ok.injEq] at h
    exact ⟨h.symm, by simp⟩
  | cons name names ih =>
    rw [List.map_cons, allCopies] at h
    obtain ⟨first, hfirst, h⟩ := bind_eq_ok_iff.mp h
    obtain ⟨others, hothers, h⟩ := bind_eq_ok_iff.mp h
    obtain rfl := Except.ok.inj h
    obtain ⟨hfs, hname⟩ := copies_eq_ok hfirst
    obtain ⟨hfs', hnames⟩ := ih hothers
    refine ⟨by rw [hfs, hfs', List.flatMap_cons], ?_⟩
    intro other hother
    obtain rfl | hother := List.mem_cons.mp hother
    · exact hname
    · exact hnames other hother

/-- **Copying lays the module out**, and shows that all derived names are available. -/
theorem available_of_allCopies_eq_ok {m : Module} {registered : List Point} {fs : List Function}
    (h : allCopies m (Pending.ofPoints registered) = .ok fs) :
    fs = Layout.copies m registered [] ∧ Layout.Available m registered := by
  obtain ⟨hfs, hfacts⟩ := allCopies_eq_ok h
  have hmutated : ∀ p ∈ registered, p.function ∈ mutatedNames registered := fun p hp =>
    mem_mutatedNames.mpr ⟨p, hp, rfl⟩
  refine ⟨hfs, fun p hp => (hfacts _ (hmutated p hp)).1, ?_, ?_⟩
  · rw [allDerivedNames, List.nodup_flatMap]
    refine ⟨fun name hname => (hfacts name hname).2.1, ?_⟩
    -- A name that is derived from two functions is derived from one.
    refine (nodup_mutatedNames registered).imp fun {a b} hne => ?_
    intro derived ha hb
    exact hne (eq_of_mem_derivedNames (fun p hp => (mem_pointsOn.mp hp).2)
      (fun q hq => (mem_pointsOn.mp hq).2) ha hb)
  · intro derived hderived
    obtain ⟨other, hother, hmem⟩ := List.mem_flatMap.mp hderived
    exact (hfacts other hother).2.2 _ hmem

/-- Where names are distinct, copying shows that all derived names are fresh. -/
theorem allCopies_ofPoints_eq_ok {m : Module} {registered : List Point} {fs : List Function}
    (hnames : m.functionNames.Nodup) (h : allCopies m (Pending.ofPoints registered) = .ok fs) :
    fs = Layout.copies m registered [] ∧ Layout.Fresh m registered := by
  obtain ⟨hfs, havailable⟩ := available_of_allCopies_eq_ok h
  exact ⟨hfs, Layout.fresh_iff.mpr ⟨hnames, havailable⟩⟩

/-- Removing functions changes nothing but the functions, whatever it answers. -/
theorem of_removeAll_eq {s t : Subject} {names : List String}
    {answer : Except ApplicationError Unit} (h : s.removeAll names = (answer, t)) :
    ∃ fs, t = { s with module := { s.module with functions := fs } } := by
  induction names generalizing s with
  | nil => exact ⟨s.module.functions, (congrArg Prod.snd h).symm⟩
  | cons name names ih =>
    rw [removeAll] at h
    split at h
    · obtain ⟨fs, rfl⟩ := ih h
      exact ⟨fs, rfl⟩
    · exact ⟨s.module.functions, eq_of_refuse_eq h⟩

/-- Removing defined functions of distinct names filters them out. -/
theorem removeAll_eq_ok (s : Subject) {names : List String} (hnodup : names.Nodup)
    (hfunctions : s.module.functionNames.Nodup)
    (hdefined : ∀ name ∈ names, name ∈ s.module.functionNames) :
    s.removeAll names = (.ok (), { s with module := { s.module with
      functions := s.module.functions.filter fun f => f.name ∉ names } }) := by
  induction names generalizing s with
  | nil => simp [removeAll]
  | cons name names ih =>
    rw [List.nodup_cons] at hnodup
    have hremove := Module.functions_remove hfunctions name
    -- The first function of a name is the only one, now and after it is removed.
    have hrest : (s.module.remove name).functionNames.Nodup := by
      rw [Module.functionNames, hremove]
      exact hfunctions.sublist (List.filter_sublist.map _)
    rw [removeAll, if_pos (Module.defines_iff.mpr (hdefined name List.mem_cons_self)),
      ih _ hnodup.2 hrest]
    · dsimp only
      rw [hremove, List.filter_filter]
      simp only [List.mem_cons, not_or, Module.remove, ne_eq, Bool.decide_and, Bool.and_comm]
    · intro other hother
      obtain ⟨f, hf, hname⟩ := List.mem_map.mp (hdefined other (List.mem_cons_of_mem _ hother))
      refine List.mem_map.mpr ⟨f, ?_, hname⟩
      rw [hremove, List.mem_filter, decide_eq_true_iff, hname]
      exact ⟨hf, fun heq => hnodup.1 (heq ▸ hother)⟩

/-- The trampolines of functions are those of their layouts, where the unmutated copies are
there. -/
theorem trampolines_eq_ok {m loaded : Module} {registered : List Point} {names : List String}
    {fs : List Function}
    (hcopies : ∀ name ∈ names, ∃ f, loaded.function? name = some f ∧
      m.function? (pristineName name) = some (f.named (pristineName name)))
    (h : trampolines m (names.map fun name => (name, pointsOn registered name)) = .ok fs) :
    fs = names.flatMap (Layout.trampolineOf loaded registered) := by
  induction names generalizing fs with
  | nil =>
    rw [List.map_nil, trampolines, Except.ok.injEq] at h
    exact h.symm
  | cons name names ih =>
    obtain ⟨f, hf, hcopy⟩ := hcopies name List.mem_cons_self
    rw [List.map_cons, trampolines] at h
    split at h
    · cases h
    · rw [hcopy] at h
      obtain ⟨rest, hrest, rfl⟩ := map_eq_ok_iff.mp h
      rw [ih (fun other hother => hcopies other (List.mem_cons_of_mem _ hother)) hrest,
        List.flatMap_cons, Layout.trampolineOf, hf]
      rfl

/-- No call takes the stage back. -/
theorem rank_le_perform (s : Subject) (call : Call) :
    s.stage.rank ≤ (s.perform call).2.stage.rank := by
  rcases hanswer : s.perform call with ⟨answer | ⟨⟩, t⟩
  · -- A refused call leaves the stage, even when it has removed some functions.
    obtain rfl | ⟨-, -, hfailed⟩ := perform_eq_error hanswer
    · exact le_rfl
    · obtain ⟨fs, rfl⟩ := of_removeAll_eq hfailed
      exact le_rfl
  · cases call with
    | register p =>
      obtain ⟨-, hrank, rfl⟩ := register_eq_ok hanswer
      exact hrank
    | clone =>
      obtain ⟨names, hclone⟩ := of_perform_clone_eq_ok hanswer
      obtain ⟨-, rfl⟩ | ⟨-, hstage, fs, -, rfl⟩ := clone_eq_ok hclone
      · exact le_rfl
      · simp [hstage, Stage.rank]
    | excise =>
      obtain ⟨-, rfl⟩ | ⟨-, hstage, u, -, rfl⟩ := excise_eq_ok hanswer
      · exact le_rfl
      · simp [hstage, Stage.rank]
    | redirect =>
      obtain ⟨-, rfl⟩ | ⟨-, hstage, fs, -, rfl⟩ := redirect_eq_ok hanswer
      · exact le_rfl
      · simp [hstage, Stage.rank]
    | apply p =>
      obtain ⟨-, hstage | hstage, copy, body, -, -, rfl⟩ := apply_eq_ok hanswer
      · simp [hstage, Stage.rank]
      · simp [hstage, Stage.rank]

/-- Calls never take the stage back. -/
theorem rank_le_after (s : Subject) (calls : List Call) :
    s.stage.rank ≤ (s.after calls).stage.rank := by
  induction calls generalizing s with
  | nil => exact le_rfl
  | cons call calls ih => exact le_trans (s.rank_le_perform call) (ih _)

/-- No call makes a subject another module. -/
theorem id_perform (s : Subject) (call : Call) : (s.perform call).2.id = s.id := by
  rcases hanswer : s.perform call with ⟨answer | ⟨⟩, t⟩
  · rcases perform_eq_error hanswer with rfl | ⟨-, -, hfailed⟩
    · rfl
    · obtain ⟨fs, rfl⟩ := of_removeAll_eq hfailed
      rfl
  · cases call with
    | register p =>
      obtain ⟨-, -, rfl⟩ := register_eq_ok hanswer
      rfl
    | clone =>
      obtain ⟨names, hclone⟩ := of_perform_clone_eq_ok hanswer
      rcases clone_eq_ok hclone with ⟨-, rfl⟩ | ⟨-, -, fs, -, rfl⟩ <;> rfl
    | excise =>
      rcases excise_eq_ok hanswer with ⟨-, rfl⟩ | ⟨-, -, u, hu, rfl⟩
      · rfl
      · obtain ⟨fs, rfl⟩ := of_removeAll_eq hu
        rfl
    | redirect => rcases redirect_eq_ok hanswer with ⟨-, rfl⟩ | ⟨-, -, fs, -, rfl⟩ <;> rfl
    | apply p =>
      obtain ⟨-, -, copy, body, -, -, rfl⟩ := apply_eq_ok hanswer
      rfl

/-- Neither do several calls. -/
theorem id_after (s : Subject) (calls : List Call) : (s.after calls).id = s.id := by
  induction calls generalizing s with
  | nil => rfl
  | cons call calls ih => rw [after_cons, ih, id_perform]

/-- Calls register only points of the module that they are made on. -/
theorem module_eq_of_mem_registered {s : Subject} {calls : List Call} {p : Point}
    (hp : p ∈ s.registered calls) : p.module = s.id := by
  induction calls generalizing s with
  | nil => exact absurd hp List.not_mem_nil
  | cons call calls ih =>
    rw [registered_cons, List.mem_append] at hp
    rcases hp with hp | hp
    · split at hp
      · rename_i hok
        cases call with
        | register q =>
          obtain rfl : p = q := List.mem_singleton.mp hp
          rcases hanswer : s.register p with ⟨answer | ⟨⟩, t⟩
          · rw [perform, hanswer] at hok
            cases hok
          · exact (register_eq_ok hanswer).1
        | _ => exact absurd hp List.not_mem_nil
      · exact absurd hp List.not_mem_nil
    · rw [ih hp, id_perform]

/-- Behind copying, no call registers a point. -/
theorem registered_eq_nil {s : Subject} (h : Stage.registered.rank < s.stage.rank)
    (calls : List Call) : s.registered calls = [] := by
  induction calls generalizing s with
  | nil => rfl
  | cons call calls ih =>
    rw [registered_cons, ih (lt_of_lt_of_le h (s.rank_le_perform call)), List.append_nil]
    split
    · rename_i hok
      cases call with
      | register p =>
        rcases hanswer : s.register p with ⟨answer | ⟨⟩, t⟩
        · rw [perform, hanswer] at hok
          cases hok
        · exact absurd (register_eq_ok hanswer).2.1 (not_le.mpr h)
      | _ => rfl
    · rfl

/-- Behind an application no point is registered, so a point that is applied has been registered
before. -/
theorem mem_of_applied_cons {s : Subject} {registered : List Point} {call : Call}
    {calls : List Call}
    (h : ∀ p ∈ s.applied (call :: calls), p ∈ registered ++ s.registered (call :: calls)) :
    ∀ p, call = .apply p → (s.perform call).1.isOk → p ∈ registered := by
  rintro p rfl hok
  rw [applied_cons, registered_cons] at h
  have hmem := h p (by
    rw [if_pos hok]
    exact List.mem_append_left _ (by simp [Call.applies?]))
  rcases hanswer : s.apply p with ⟨answer | ⟨⟩, t⟩
  · rw [perform, hanswer] at hok
    cases hok
  · obtain ⟨-, -, copy, body, -, -, rfl⟩ := apply_eq_ok hanswer
    rw [perform, hanswer, registered_eq_nil (by simp [Stage.rank])] at hmem
    simpa [Call.registers?] using hmem

/-- One call and the history: a refused call is not noted, another one adds what it registers or
applies. -/
theorem perform_history {P : List Point → List Point → Subject → Prop}
    {registered applied : List Point} {s : Subject} {call : Call}
    (hrefused : ∀ e t, s.perform call = (.error e, t) → P registered applied t)
    (hdone : ∀ t, s.perform call = (.ok (), t) →
      P (registered ++ call.registers?.toList) (applied ++ call.applies?.toList) t) :
    P (registered ++ if (s.perform call).1.isOk then call.registers?.toList else [])
      (applied ++ if (s.perform call).1.isOk then call.applies?.toList else [])
      (s.perform call).2 := by
  rcases hanswer : s.perform call with ⟨answer | ⟨⟩, t⟩
  · simpa [Except.isOk, Except.toBool] using hrefused answer t hanswer
  · simpa [Except.isOk, Except.toBool] using hdone t hanswer

/-- **What every call keeps, calls keep**, in any order and with any failures: a property of a
subject and of the points that have been registered and applied in it. Every point that is applied
has been registered. -/
theorem after_induction {P : List Point → List Point → Subject → Prop}
    (hperform : ∀ {registered applied : List Point} {s : Subject} {call : Call},
      P registered applied s →
      (∀ p, call = .apply p → (s.perform call).1.isOk → p ∈ registered) →
      P (registered ++ if (s.perform call).1.isOk then call.registers?.toList else [])
        (applied ++ if (s.perform call).1.isOk then call.applies?.toList else [])
        (s.perform call).2)
    {registered applied : List Point} {s : Subject} {calls : List Call} (h : P registered applied s)
    (happlied : ∀ p ∈ s.applied calls, p ∈ registered ++ s.registered calls) :
    P (registered ++ s.registered calls) (applied ++ s.applied calls) (s.after calls) := by
  induction calls generalizing registered applied s with
  | nil => simpa [Subject.registered, Subject.applied] using h
  | cons call calls ih =>
    have hcall := mem_of_applied_cons happlied
    rw [registered_cons, applied_cons, ← List.append_assoc, ← List.append_assoc]
    rw [registered_cons, applied_cons, ← List.append_assoc] at happlied
    exact ih (hperform h hcall) fun p hp => happlied p (List.mem_append_right _ hp)

/-- One more application that has found a site. -/
theorem sites_append {loaded : Module} {registered applied : List Point} {p : Point} {f : Function}
    {body : List Instruction}
    (h : ∀ q ∈ registered, ∀ g, loaded.function? q.function = some g →
      ∀ count < applied.count q,
        (mutateAt q.operator q.instruction (q.mutate^[count] g).body).isSome)
    (hf : loaded.function? p.function = some f)
    (hbody : mutateAt p.operator p.instruction (p.mutate^[applied.count p] f).body = some body) :
    ∀ q ∈ registered, ∀ g, loaded.function? q.function = some g →
      ∀ count < (applied ++ [p]).count q,
        (mutateAt q.operator q.instruction (q.mutate^[count] g).body).isSome := by
  intro q hq g hg count hcount
  rw [List.count_append, List.count_singleton] at hcount
  by_cases hlt : count < applied.count q
  · exact h q hq g hg count hlt
  · -- The one application that is new is the one that has just succeeded.
    have hqp : (p == q) = true := by
      by_contra hne
      rw [if_neg hne] at hcount
      omega
    obtain rfl := eq_of_beq hqp
    rw [if_pos hqp] at hcount
    obtain rfl : count = applied.count p := by omega
    obtain rfl := Option.some.inj (hf.symm.trans hg)
    rw [hbody]
    rfl

/-! ## The invariant -/

/-- A subject and its history: module `id` was loaded with the code `loaded`, and calls have
registered and applied points in it. -/
structure Reached (id : ModuleId) (loaded : Module) (registered applied : List Point)
    (s : Subject) : Prop where
  id_eq : s.id = id
  pending_eq : s.pending = Pending.ofPoints registered
  stage_eq_pristine : s.stage = .pristine ↔ registered = []
  module_eq : s.module =
    { loaded with functions := Layout.functions loaded registered applied s.stage }
  /-- Behind the first two stages the derived names are fresh. -/
  fresh : Stage.registered.rank < s.stage.rank → Layout.Fresh loaded registered
  /-- Points are applied only in the last stage. -/
  applied_eq_nil : s.stage ≠ .applied → applied = []
  /-- Every application found a site. -/
  sites : ∀ p ∈ registered, ∀ f, loaded.function? p.function = some f →
    ∀ count < applied.count p,
      (mutateAt p.operator p.instruction (p.mutate^[count] f).body).isSome

namespace Reached

variable {id : ModuleId} {loaded : Module} {registered applied : List Point} {s t : Subject}

/-- A module as it is loaded has no history. -/
theorem ofModule (id : ModuleId) (loaded : Module) :
    Reached id loaded [] [] (.ofModule id loaded) where
  id_eq := rfl
  pending_eq := Pending.ofPoints_nil.symm
  stage_eq_pristine := ⟨fun _ => rfl, fun _ => rfl⟩
  module_eq := rfl
  fresh h := absurd h (by simp [Subject.ofModule, Stage.rank])
  applied_eq_nil _ := rfl
  sites _ hp := absurd hp List.not_mem_nil

/-- Before copying, the code is the loaded one. -/
theorem module_eq_loaded (h : Reached id loaded registered applied s)
    (hstage : s.stage.rank ≤ Stage.registered.rank) : s.module = loaded := by
  have hmodule := h.module_eq
  revert hmodule hstage
  cases s.stage with
  | pristine => exact fun _ hmodule => hmodule
  | registered => exact fun _ hmodule => hmodule
  | _ => exact fun hstage => absurd hstage (by decide)

/-- Names stay distinct at every stage. -/
theorem nodup_functionNames (hnames : loaded.functionNames.Nodup)
    (h : Reached id loaded registered applied s) : s.module.functionNames.Nodup := by
  by_cases hstage : s.stage.rank ≤ Stage.registered.rank
  · rwa [h.module_eq_loaded hstage]
  · rw [h.module_eq]
    exact (h.fresh (Nat.lt_of_not_le hstage)).nodup_names s.stage

/-- In the last two stages, the code is the last layout. -/
theorem module_eq_of_stage (h : Reached id loaded registered applied s)
    (hstage : s.stage = .redirected ∨ s.stage = .applied) :
    s.module =
      { loaded with functions := Layout.functions loaded registered applied .applied } := by
  rw [h.module_eq]
  obtain hstage | hstage := hstage
  · rw [hstage]
    rfl
  · rw [hstage]

/-- There the copy of a point is found, mutated as often as the point was applied. -/
theorem function?_cloneName (h : Reached id loaded registered applied s)
    (hstage : s.stage = .redirected ∨ s.stage = .applied) {p : Point} (hp : p ∈ registered)
    {f : Function} (hf : loaded.function? p.function = some f) :
    s.module.function? p.cloneName =
      some ((p.mutate^[applied.count p] f).named p.cloneName) := by
  have hfresh : Layout.Fresh loaded registered :=
    h.fresh (by obtain hstage | hstage := hstage <;> (rw [hstage]; decide))
  rw [h.module_eq_of_stage hstage]
  -- Names are distinct, so the copy that is found is the copy of the point.
  refine (Module.function?_eq_some_iff ?_).mpr ⟨?_, rfl⟩
  · exact hfresh.nodup_names .applied
  · exact List.mem_append_left _ (List.mem_append_right _ (Layout.mem_copies_mutant hp hf))

/-- Before the last stage, nothing is applied. -/
theorem applied_eq_nil_of_rank (h : Reached id loaded registered applied s)
    (hstage : s.stage.rank < Stage.applied.rank) : applied = [] :=
  h.applied_eq_nil fun happlied => absurd hstage (by rw [happlied]; exact lt_irrefl _)

/-- Where points are pending, points are registered. -/
theorem registered_ne_nil (h : Reached id loaded registered applied s)
    (hpending : s.pending ≠ []) : registered ≠ [] := by
  rwa [h.pending_eq, Ne, Pending.ofPoints_eq_nil] at hpending

/-- Registering a point adds it to the history. -/
theorem register {p : Point} (h : Reached id loaded registered applied s)
    (hcall : s.register p = (.ok (), t)) : Reached id loaded (registered ++ [p]) applied t := by
  obtain ⟨-, hrank, rfl⟩ := register_eq_ok hcall
  -- Nothing is applied this early, so the new point has no applications to account for.
  obtain rfl := h.applied_eq_nil_of_rank (lt_of_le_of_lt hrank (by decide))
  exact {
    id_eq := h.id_eq
    pending_eq := by rw [h.pending_eq, Pending.add_ofPoints]
    stage_eq_pristine := iff_of_false (fun hstage => nomatch hstage) (by simp)
    module_eq := h.module_eq_loaded hrank
    fresh := fun hlt => absurd hlt (lt_irrefl _)
    applied_eq_nil := fun _ => rfl
    sites := fun _ _ _ _ _ hcount => absurd hcount (by simp) }

/-- The steps between registering and applying keep the history, as long as the code is laid out as
the new stage wants it. -/
theorem advance (h : Reached id loaded registered applied s) (hpending : s.pending ≠ [])
    (hfresh : Layout.Fresh loaded registered) (happlied : applied = []) {stage : Stage}
    (hstage : stage ≠ .pristine) {m : Module}
    (hm : m = { loaded with functions := Layout.functions loaded registered applied stage }) :
    Reached id loaded registered applied { s with module := m, stage } where
  id_eq := h.id_eq
  pending_eq := h.pending_eq
  stage_eq_pristine := iff_of_false hstage (h.registered_ne_nil hpending)
  module_eq := hm
  fresh _ := hfresh
  applied_eq_nil _ := happlied
  sites := h.sites

/-- Copying keeps the history. -/
theorem clone (hnames : loaded.functionNames.Nodup) (h : Reached id loaded registered applied s)
    (hcall : s.perform .clone = (.ok (), t)) : Reached id loaded registered applied t := by
  obtain ⟨names, hclone⟩ := of_perform_clone_eq_ok hcall
  obtain ⟨-, rfl⟩ | ⟨hpending, hstage, fs, hfs, rfl⟩ := clone_eq_ok hclone
  · exact h
  · have hmodule : s.module = loaded := h.module_eq_loaded (by rw [hstage])
    obtain rfl := h.applied_eq_nil (by rw [hstage]; decide)
    -- That the copies could be made is what makes the derived names fresh.
    rw [hmodule, h.pending_eq] at hfs
    obtain ⟨rfl, hfresh⟩ := allCopies_ofPoints_eq_ok hnames hfs
    exact h.advance hpending hfresh rfl (by decide) (by rw [hmodule]; rfl)

/-- Behind copying, the functions that points mutate can all be removed. -/
theorem removeAll_eq_ok (h : Reached id loaded registered applied s) (hstage : s.stage = .cloned) :
    s.removeAll (s.pending.map Prod.fst) = (.ok (), { s with module := { loaded with
      functions := Layout.functions loaded registered applied .excised } }) := by
  have hfresh : Layout.Fresh loaded registered := h.fresh (by rw [hstage]; decide)
  have hmodule := h.module_eq
  rw [hstage] at hmodule
  have hfunctions : s.module.functions =
      loaded.functions ++ Layout.copies loaded registered applied := by rw [hmodule]; rfl
  have hnames : s.pending.map Prod.fst = mutatedNames registered := by
    rw [h.pending_eq, Pending.map_fst_ofPoints]
  rw [hnames, Subject.removeAll_eq_ok s (nodup_mutatedNames _)]
  · -- No copy carries the name of a function that is cut out.
    have hcopies : ∀ f ∈ Layout.copies loaded registered applied,
        f.name ∉ mutatedNames registered := fun f hf hname => by
      have hderived := List.mem_map_of_mem (f := Function.name) hf
      rw [hfresh.available.map_name_copies] at hderived
      exact hfresh.available.free _ hderived (hfresh.available.mem_functionNames hname)
    rw [hfunctions, List.filter_append,
      List.filter_eq_self.mpr fun f hf => decide_eq_true (hcopies f hf), hmodule]
    rfl
  · rw [Module.functionNames, hfunctions]
    exact hfresh.nodup_cloned
  · intro name hname
    rw [Module.functionNames, hfunctions, List.map_append]
    exact List.mem_append_left _ (hfresh.available.mem_functionNames hname)

/-- Cutting out keeps the history: only functions that are copied go. -/
theorem excise (h : Reached id loaded registered applied s)
    (hcall : s.excise = (.ok (), t)) : Reached id loaded registered applied t := by
  obtain ⟨-, rfl⟩ | ⟨hpending, hstage, u, hu, rfl⟩ := excise_eq_ok hcall
  · exact h
  · have hfresh : Layout.Fresh loaded registered := h.fresh (by rw [hstage]; decide)
    rw [h.removeAll_eq_ok hstage, Prod.mk.injEq] at hu
    obtain ⟨-, rfl⟩ := hu
    have happlied : applied = [] := h.applied_eq_nil (by rw [hstage]; decide)
    exact h.advance hpending hfresh happlied (by decide) rfl

/-- Redirecting keeps the history: the trampolines take over names and arities. -/
theorem redirect (h : Reached id loaded registered applied s)
    (hcall : s.redirect = (.ok (), t)) : Reached id loaded registered applied t := by
  obtain ⟨-, rfl⟩ | ⟨hpending, hstage, fs, hfs, rfl⟩ := redirect_eq_ok hcall
  · exact h
  · have hfresh : Layout.Fresh loaded registered := h.fresh (by rw [hstage]; decide)
    have hmodule := h.module_eq
    rw [hstage] at hmodule
    -- The arity of a trampoline is read off the unmutated copy.
    have hcopies : ∀ name ∈ mutatedNames registered, ∃ f, loaded.function? name = some f ∧
        s.module.function? (pristineName name) = some (f.named (pristineName name)) := by
      intro name hname
      obtain ⟨f, hf⟩ := Module.exists_function?_eq_some (hfresh.available.mem_functionNames hname)
      refine ⟨f, hf, ?_⟩
      rw [hmodule]
      refine (Module.function?_eq_some_iff ?_).mpr ⟨?_, rfl⟩
      · exact hfresh.nodup_excised
      · exact List.mem_append_right _ (Layout.mem_copies_pristine hname hf)
    rw [h.pending_eq] at hfs
    obtain rfl := trampolines_eq_ok hcopies hfs
    have happlied : applied = [] := h.applied_eq_nil (by rw [hstage]; decide)
    exact h.advance hpending hfresh happlied (by decide) (by rw [hmodule]; rfl)

/-- Applying a registered point adds it to the history. -/
theorem apply {p : Point} (hp : p ∈ registered) (h : Reached id loaded registered applied s)
    (hcall : s.apply p = (.ok (), t)) : Reached id loaded registered (applied ++ [p]) t := by
  obtain ⟨-, hstage, copy, body, hcopy, hbody, rfl⟩ := apply_eq_ok hcall
  have hfresh : Layout.Fresh loaded registered :=
    h.fresh (by obtain hstage | hstage := hstage <;> (rw [hstage]; decide))
  obtain ⟨f, hf⟩ := Module.exists_function?_eq_some (hfresh.defined p hp)
  obtain rfl := Option.some.inj ((h.function?_cloneName hstage hp hf).symm.trans hcopy)
  rw [Function.body_named] at hbody
  exact {
    id_eq := h.id_eq
    pending_eq := h.pending_eq
    stage_eq_pristine :=
      iff_of_false (fun hpristine => nomatch hpristine) (List.ne_nil_of_mem hp)
    module_eq := by
      rw [h.module_eq_of_stage hstage, Module.modify, hfresh.modifyFirst_functions hp hf hbody]
    fresh := fun _ => hfresh
    applied_eq_nil := fun hne => absurd rfl hne
    sites := sites_append h.sites hf hbody }

/-- **A call keeps the invariant**, whatever it answers: what it registers or applies is added to
the history. -/
theorem perform (hnames : loaded.functionNames.Nodup)
    (h : Reached id loaded registered applied s) {call : Call}
    (hcall : ∀ p, call = .apply p → (s.perform call).1.isOk → p ∈ registered) :
    Reached id loaded
      (registered ++ if (s.perform call).1.isOk then call.registers?.toList else [])
      (applied ++ if (s.perform call).1.isOk then call.applies?.toList else [])
      (s.perform call).2 := by
  refine perform_history (fun e t hanswer => ?_) fun t hanswer => ?_
  · obtain rfl | ⟨-, hstage, hfailed⟩ := perform_eq_error hanswer
    · exact h
    · -- Cutting out does not fail once the copies are made.
      rw [h.removeAll_eq_ok hstage, Prod.mk.injEq] at hfailed
      exact nomatch hfailed.1
  · rw [hanswer] at hcall
    cases call with
    | register p => simpa [Call.registers?, Call.applies?] using h.register hanswer
    | clone => simpa [Call.registers?, Call.applies?] using h.clone hnames hanswer
    | excise => simpa [Call.registers?, Call.applies?] using h.excise hanswer
    | redirect => simpa [Call.registers?, Call.applies?] using h.redirect hanswer
    | apply p =>
      simpa [Call.registers?, Call.applies?] using h.apply (hcall p rfl rfl) hanswer

/-- **Calls keep the invariant**, in any order and with any failures, as long as every point that
is applied has been registered. -/
theorem after (hnames : loaded.functionNames.Nodup)
    (h : Reached id loaded registered applied s) {calls : List Call}
    (happlied : ∀ p ∈ s.applied calls, p ∈ registered ++ s.registered calls) :
    Reached id loaded (registered ++ s.registered calls) (applied ++ s.applied calls)
      (s.after calls) := by
  exact after_induction (fun h hcall => h.perform hnames hcall) h happlied

end Reached

end Subject

end MutationLab
