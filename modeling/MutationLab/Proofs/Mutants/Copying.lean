import MutationLab.Proofs.Mutants.Naming

/-! # What stands in the way of copies

Copying the mutated functions of a module is refused when one of them is missing, or when the name
of a copy is taken (`allCopies_eq_error`). Among points on different sites of one module no two
derived names are equal, so such a name is one that the module defines itself: this is
`derived_names_never_collide`. The module may define names twice. -/

namespace MutationLab

namespace Subject

/-! ## Refused copies -/

/-- A copy for a point is refused because of its name, which the module defines or another copy
has. -/
theorem mutantCopies_eq_error {m : Module} {source : Function} {taken : List String}
    {points : List Point} {e : ApplicationError}
    (h : mutantCopies m source taken points = .error e) :
    ∃ p ∈ points, e = .nameCollision m.name p.cloneName ∧
      (p.cloneName ∈ m.functionNames ∨ ¬ (taken ++ points.map Point.cloneName).Nodup) := by
  induction points generalizing taken with
  | nil => cases h
  | cons p points ih =>
    unfold mutantCopies at h
    by_cases htaken : m.defines p.cloneName ∨ p.cloneName ∈ taken
    · simp only [htaken, if_true, Except.error.injEq] at h
      refine ⟨p, List.mem_cons_self, h.symm, ?_⟩
      rcases htaken with hdefined | hcopy
      · exact .inl (Module.defines_iff.mp hdefined)
      · right
        intro hnodup
        exact (List.nodup_append.mp hnodup).2.2 _ hcopy _ List.mem_cons_self rfl
    · simp only [htaken, if_false] at h
      rcases ih (map_eq_error_iff.mp h) with ⟨q, hq, rfl, hname⟩
      refine ⟨q, List.mem_cons_of_mem p hq, rfl, ?_⟩
      rwa [List.append_assoc, List.singleton_append, ← List.map_cons] at hname

/-- The copies of a function are refused because it is missing, or because of one of their names. -/
theorem copies_eq_error {m : Module} {name : String} {points : List Point} {e : ApplicationError}
    (h : copies m name points = .error e) :
    e = .missingFunction m.name name ∧ name ∉ m.functionNames ∨
      ∃ derived ∈ derivedNames name points, e = .nameCollision m.name derived ∧
        (derived ∈ m.functionNames ∨ ¬ (derivedNames name points).Nodup) := by
  unfold copies at h
  cases hsource : m.function? name with
  | none =>
    rw [hsource] at h
    refine .inl ⟨(Except.error.inj h).symm, fun hname => ?_⟩
    rcases Module.exists_function?_eq_some hname with ⟨f, hf⟩
    simp [hsource] at hf
  | some source =>
    rw [hsource] at h
    dsimp only at h
    right
    by_cases hdefined : m.defines (pristineName name)
    · simp only [hdefined, if_true, Except.error.injEq] at h
      exact ⟨_, mem_derivedNames.mpr (.inl rfl), h.symm, .inl (Module.defines_iff.mp hdefined)⟩
    · simp only [hdefined] at h
      rcases mutantCopies_eq_error (map_eq_error_iff.mp h) with ⟨p, hp, rfl, hname⟩
      exact ⟨_, mem_derivedNames.mpr (.inr ⟨p, hp, rfl⟩), rfl, hname⟩

/-- **Copies of several functions** are refused because of one of the functions. -/
theorem allCopies_eq_error {m : Module} {pending : Pending} {e : ApplicationError}
    (h : allCopies m pending = .error e) :
    ∃ entry ∈ pending, copies m entry.1 entry.2 = .error e := by
  induction pending with
  | nil => cases h
  | cons entry rest ih =>
    unfold allCopies at h
    rcases bind_eq_error_iff.mp h with hfirst | ⟨first, -, h⟩
    · exact ⟨entry, List.mem_cons_self, hfirst⟩
    · rcases bind_eq_error_iff.mp h with hrest | ⟨others, -, h⟩
      · rcases ih hrest with ⟨other, hother, herror⟩
        exact ⟨other, List.mem_cons_of_mem entry hother, herror⟩
      · cases h

/-- Where derived names are distinct, copying is refused for a function that is missing or for a
derived name that the module defines. -/
theorem allCopies_ofPoints_eq_error {m : Module} {points : List Point} {e : ApplicationError}
    (hnodup : (allDerivedNames points).Nodup)
    (h : allCopies m (Pending.ofPoints points) = .error e) :
    ∃ p ∈ points, e = .missingFunction m.name p.function ∧ p.function ∉ m.functionNames ∨
      ∃ derived ∈ derivedNames p.function [p],
        e = .nameCollision m.name derived ∧ derived ∈ m.functionNames := by
  rcases allCopies_eq_error h with ⟨entry, hentry, herror⟩
  rcases List.mem_map.mp hentry with ⟨name, hname, rfl⟩
  rcases copies_eq_error herror with ⟨rfl, hmissing⟩ | ⟨derived, hderived, rfl, htaken⟩
  · rcases mem_mutatedNames.mp hname with ⟨p, hp, rfl⟩
    exact ⟨p, hp, .inl ⟨rfl, hmissing⟩⟩
  · have hdistinct : (derivedNames name (pointsOn points name)).Nodup :=
      (List.nodup_flatMap.mp hnodup).1 name hname
    have hdefined : derived ∈ m.functionNames := htaken.resolve_right fun hne => hne hdistinct
    rcases exists_of_mem_allDerivedNames (List.mem_flatMap.mpr ⟨name, hname, hderived⟩) with
      ⟨p, hp, hown⟩
    exact ⟨p, hp, .inr ⟨derived, hown, rfl, hdefined⟩⟩

/-! ## Points that are registered -/

/-- Points of a module can be registered one after the other. -/
theorem Standing.registerAll {id : ModuleId} {loaded : Module} {before points : List Point}
    {s : Subject} (h : Standing id loaded before [] [.registered] s)
    (hmodule : ∀ p ∈ points, p.module = id) :
    s.registered (points.map Call.register) = points ∧
      Standing id loaded (before ++ points) [] [.registered]
        (s.after (points.map Call.register)) := by
  induction points generalizing before s with
  | nil => exact ⟨rfl, by simpa using h⟩
  | cons p points ih =>
    rw [List.forall_mem_cons] at hmodule
    rcases h.register hmodule.1 with ⟨t, hcall, ht⟩
    rcases ih ht hmodule.2 with ⟨hregistered, hstanding⟩
    have hperform : s.perform (.register p) = (.ok (), t) := hcall
    constructor
    · rw [List.map_cons, registered_cons, hperform, hregistered]
      rfl
    · rw [List.map_cons, after_cons, hperform]
      simpa using hstanding

end Subject

/-! ## Points on different sites -/

/-- Points on different sites of one module have distinct derived names. -/
theorem Point.Apart.nodup_allDerivedNames {points : List Point} {id : ModuleId}
    {moduleName : String} (h : Point.Apart points) (hpoints : ∀ p ∈ points,
      p.operator ∈ Operator.catalog ∧ p.module = id ∧ p.moduleName = moduleName) :
    (allDerivedNames points).Nodup := by
  refine MutationLab.nodup_allDerivedNames h.nodup fun p hp q hq hname => ?_
  rcases hpoints p hp with ⟨hcatalog, hmodule, hmoduleName⟩
  rcases hpoints q hq with ⟨hcatalog', hmodule', hmoduleName'⟩
  apply h.eq_of_sameSite hp hq
  exact sameSite_of_cloneName_eq hcatalog hcatalog' (hmodule.trans hmodule'.symm)
    (hmoduleName.trans hmoduleName'.symm) hname

namespace Example

/-- A module that defines the name of the copy for a point. -/
def occupied : Module :=
  arithmetic.add { name := addition.cloneName, body := [{ operation := .return none }] }

end Example

/-- **Derived names never collide with each other.** Points of one module have copies of one name
only if they agree in operator, function and position, whatever characters the names of functions
have, and the copy of a mutant never has the name of an unmutated copy. So when points on different
sites are registered in a module, copying is refused exactly when a mutated function is missing or
the module defines a derived name itself, and this is what the error says. -/
theorem derived_names_never_collide :
    (∀ p q : Point, p.operator ∈ Operator.catalog → q.operator ∈ Operator.catalog →
      p.moduleName = q.moduleName →
      (p.cloneName = q.cloneName ↔
        p.operator = q.operator ∧ p.function = q.function ∧ p.instruction = q.instruction)) ∧
    (∀ (p : Point) (name : String), p.cloneName ≠ pristineName name) ∧
    ∀ (id : ModuleId) (loaded : Module) (points : List Point),
      (∀ p ∈ points,
        p.operator ∈ Operator.catalog ∧ p.module = id ∧ p.moduleName = loaded.name) →
      Point.Apart points →
      let subject := (Subject.ofModule id loaded).after (points.map Call.register)
      (Subject.ofModule id loaded).registered (points.map Call.register) = points ∧
      (∀ e t, subject.clone = (.error e, t) → t = subject ∧ ∃ p ∈ points,
        e = .missingFunction loaded.name p.function ∧ p.function ∉ loaded.functionNames ∨
        ∃ derived ∈ derivedNames p.function [p],
          e = .nameCollision loaded.name derived ∧ derived ∈ loaded.functionNames) ∧
      ((∃ e t, subject.clone = (.error e, t)) ↔ ∃ p ∈ points,
        p.function ∉ loaded.functionNames ∨
        ∃ derived ∈ derivedNames p.function [p], derived ∈ loaded.functionNames) := by
  refine ⟨fun p q hp hq hmoduleName => Point.cloneName_eq_iff hp hq hmoduleName,
    Point.cloneName_ne_pristineName, ?_⟩
  intro id loaded points hpoints hapart subject
  have hloaded : Subject.Standing id loaded [] [] [.registered] (Subject.ofModule id loaded) :=
    Subject.Standing.ofModule id loaded
  rcases hloaded.registerAll fun p hp => (hpoints p hp).2.1 with ⟨hregistered, hstanding⟩
  have hsubject : Subject.Standing id loaded points [] [.registered] subject := hstanding
  have hderived : (allDerivedNames points).Nodup := hapart.nodup_allDerivedNames hpoints
  have herror : ∀ e t, subject.clone = (.error e, t) → t = subject ∧ ∃ p ∈ points,
      e = .missingFunction loaded.name p.function ∧ p.function ∉ loaded.functionNames ∨
      ∃ derived ∈ derivedNames p.function [p],
        e = .nameCollision loaded.name derived ∧ derived ∈ loaded.functionNames := by
    intro e t hclone
    rcases hsubject.clone_eq_error_iff.mp hclone with ⟨hsame, hcopies⟩
    exact ⟨hsame, Subject.allCopies_ofPoints_eq_error hderived hcopies⟩
  refine ⟨hregistered, herror, ?_, ?_⟩
  · rintro ⟨e, t, hclone⟩
    rcases (herror e t hclone).2 with ⟨p, hp, ⟨-, hmissing⟩ | ⟨derived, hown, -, hdefined⟩⟩
    · exact ⟨p, hp, .inl hmissing⟩
    · exact ⟨p, hp, .inr ⟨derived, hown, hdefined⟩⟩
  · rintro ⟨p, hp, hfault⟩
    cases hcopies : Subject.allCopies loaded (Pending.ofPoints points) with
    | error e => exact ⟨e, subject, hsubject.clone_eq_error_iff.mpr ⟨rfl, hcopies⟩⟩
    | ok fs =>
      -- Copies that could be made show that the names were available.
      have havailable := (Subject.available_of_allCopies_eq_ok hcopies).2
      rcases hfault with hmissing | ⟨derived, hown, hdefined⟩
      · exact absurd (havailable.defined p hp) hmissing
      · exact absurd hdefined (havailable.free derived (mem_allDerivedNames_of_mem hp hown))

/-- `derived_names_never_collide` where a module defines the name of a copy. -/
theorem derived_names_never_collide_example :
    ∃ e t, ((Subject.ofModule 0 Example.occupied).after
      ([Example.subtraction, Example.addition].map Call.register)).clone = (.error e, t) := by
  have hpoints : ∀ p ∈ [Example.subtraction, Example.addition],
      p.operator ∈ Operator.catalog ∧ p.module = 0 ∧ p.moduleName = Example.occupied.name := by
    decide +kernel
  have hapart : Point.Apart [Example.subtraction, Example.addition] := by
    unfold Point.Apart
    decide +kernel
  rcases derived_names_never_collide with ⟨-, -, hcopying⟩
  refine (hcopying 0 Example.occupied _ hpoints hapart).2.2.mpr
    ⟨Example.addition, by simp, .inr ⟨Example.addition.cloneName, by simp, ?_⟩⟩
  decide +kernel

end MutationLab
