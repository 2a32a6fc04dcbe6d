import MutationLab.Proofs.Application.Atomicity

/-! # How long an applied mutation lasts

Nothing keeps a point from being applied again. An operator that has no site in what it has made
refuses, so its mutation stays (`Operator.Settles.mutate?_eq_none`). All operators of the catalog
are of this kind but one: a negated comparison is a comparison, and negating it again restores the
loaded instruction (`Operator.mutate?_mutate?_of_negates`). `applied_mutations_last` says which
mutations show in a module behind any calls, also in a module whose functions share names. -/

namespace MutationLab

/-! ## Operators on their own results -/

/-- Whether a rule has a site in every operation that another one has made. -/
def Rule.follows : Rule → Rule → Bool
  | swap source _, swap _ replacement => replacement = source
  | negate, negate => true
  | _, _ => false

/-- Whether a rule has a site in what another one has made depends on the rules only. -/
theorem Rule.isSite_of_mutate?_eq_some {rule other : Rule} {operation mutated : Operation}
    (h : rule.mutate? operation = some mutated) : other.isSite mutated = other.follows rule := by
  unfold mutate? at h
  split at h
  · split at h
    · obtain rfl := Option.some.inj h
      cases other <;> rfl
    · cases h
  all_goals
    first
    | obtain rfl := Option.some.inj h
      cases other <;> rfl
    | cases h

namespace Operator

/-- An operator that has no site in what it has made. -/
def Settles (operator : Operator) : Prop :=
  ∀ rule ∈ operator.rules, ∀ other ∈ operator.rules, other.follows rule = false

instance (operator : Operator) : Decidable operator.Settles :=
  inferInstanceAs (Decidable (∀ rule ∈ operator.rules, ∀ other ∈ operator.rules,
    other.follows rule = false))

/-- An operator of the catalog settles, unless it negates. -/
theorem settles_or_negates {operator : Operator} (h : operator ∈ catalog) :
    operator.id ≠ "negate_condition" ∧ operator.Settles ∨
      operator.id = "negate_condition" ∧ operator.rules = [.negate] := by
  revert operator
  decide +kernel

/-- An operator that settles refuses what it has made. -/
theorem Settles.mutate?_eq_none {operator : Operator} (h : operator.Settles)
    {operation mutated : Operation} (hmutated : operator.mutate? operation = some mutated) :
    operator.mutate? mutated = none := by
  obtain ⟨rule, hrule, hsome⟩ := List.exists_of_findSome?_eq_some hmutated
  rw [← Option.not_isSome_iff_eq_none, isSome_mutate?, isSite, List.any_eq_true]
  rintro ⟨other, hother, hsite⟩
  rw [Rule.isSite_of_mutate?_eq_some hsome, h rule hrule other hother] at hsite
  exact Bool.false_ne_true hsite

/-- So it changes every operation it has a site in. -/
theorem Settles.ne {operator : Operator} (h : operator.Settles) {operation mutated : Operation}
    (hmutated : operator.mutate? operation = some mutated) : mutated ≠ operation := by
  rintro rfl
  rw [h.mutate?_eq_none hmutated] at hmutated
  cases hmutated

/-- An operator that negates changes a comparison and takes the change back. -/
theorem mutate?_mutate?_of_negates {operator : Operator} (h : operator.rules = [.negate])
    {operation mutated : Operation} (hmutated : operator.mutate? operation = some mutated) :
    operator.mutate? mutated = some operation ∧ mutated ≠ operation := by
  unfold mutate? at hmutated ⊢
  rw [h, List.findSome?_singleton] at hmutated ⊢
  cases operation with
  | compare dst predicate lhs rhs =>
    obtain rfl := Option.some.inj hmutated
    refine ⟨by simp [Rule.mutate?], fun heq => ?_⟩
    cases predicate <;> cases heq
  | _ => cases hmutated

end Operator

/-! ## Mutating a body more than once -/

namespace Point

/-- The mutation of a point in a body: one instruction is another one, which the operator has made
of the one before. -/
def Rewrites (p : Point) (before after : List Instruction) : Prop :=
  ∃ i operation, before[p.instruction]? = some i ∧
    p.operator.mutate? i.operation = some operation ∧ operation ≠ i.operation ∧
    after = before.set p.instruction { i with operation }

/-- Applications of a point that leave its mutation in the code: there are some, and an operator
that negates has been applied an odd number of times. -/
def InForce (p : Point) (applied : List Point) : Prop :=
  p ∈ applied ∧ (p.operator.id = "negate_condition" → applied.count p % 2 = 1)

variable {p : Point} {body mutated : List Instruction}

/-- A body with a mutation is not the body without it. -/
theorem Rewrites.ne (h : p.Rewrites body mutated) : mutated ≠ body := by
  obtain ⟨i, operation, hi, -, hne, rfl⟩ := h
  intro heq
  have hget : (body.set p.instruction { i with operation })[p.instruction]? = some i := by
    rw [heq, hi]
  rw [List.getElem?_set_self (List.getElem?_eq_some_iff.mp hi).1] at hget
  exact hne (congrArg Instruction.operation (Option.some.inj hget))

/-- A body that is mutated by an operator of the catalog has the mutation. -/
theorem rewrites_of_mutateAt_eq_some (hcatalog : p.operator ∈ Operator.catalog)
    (h : Subject.mutateAt p.operator p.instruction body = some mutated) :
    p.Rewrites body mutated := by
  obtain ⟨i, operation, hi, hoperation, rfl⟩ := Subject.mutateAt_eq_some h
  refine ⟨i, operation, hi, hoperation, ?_, rfl⟩
  rcases Operator.settles_or_negates hcatalog with ⟨-, hsettles⟩ | ⟨-, hnegates⟩
  · exact hsettles.ne hoperation
  · exact (Operator.mutate?_mutate?_of_negates hnegates hoperation).2

/-- Where an operator has mutated a body, it goes on with its own result. -/
theorem mutateAt_of_rewrites (h : p.Rewrites body mutated) :
    ∃ i operation, body[p.instruction]? = some i ∧
      p.operator.mutate? i.operation = some operation ∧
      Subject.mutateAt p.operator p.instruction mutated =
        (p.operator.mutate? operation).map fun again =>
          body.set p.instruction { i with operation := again } := by
  obtain ⟨i, operation, hi, hoperation, -, rfl⟩ := h
  refine ⟨i, operation, hi, hoperation, ?_⟩
  unfold Subject.mutateAt
  rw [List.getElem?_set_self (List.getElem?_eq_some_iff.mp hi).1, Option.bind_eq_bind,
    Option.bind_some]
  cases p.operator.mutate? operation with
  | none => simp
  | some again => simp

/-- An operator that settles has no site left. -/
theorem Rewrites.mutateAt_eq_none (h : p.Rewrites body mutated) (hsettles : p.operator.Settles) :
    Subject.mutateAt p.operator p.instruction mutated = none := by
  obtain ⟨i, operation, -, hoperation, hagain⟩ := mutateAt_of_rewrites h
  rw [hagain, hsettles.mutate?_eq_none hoperation]
  rfl

/-- An operator that negates restores the body. -/
theorem Rewrites.mutateAt_eq_some (h : p.Rewrites body mutated)
    (hnegates : p.operator.rules = [.negate]) :
    Subject.mutateAt p.operator p.instruction mutated = some body := by
  obtain ⟨i, operation, hi, hoperation, hagain⟩ := mutateAt_of_rewrites h
  rw [hagain, (Operator.mutate?_mutate?_of_negates hnegates hoperation).1, Option.map_some]
  obtain ⟨hlt, rfl⟩ := List.getElem?_eq_some_iff.mp hi
  exact congrArg some (List.set_getElem_self hlt)

/-- An operator that negates leaves one of two bodies, by turns. -/
theorem body_iterate_mutate_of_negates {f : Function} (hcatalog : p.operator ∈ Operator.catalog)
    (hnegates : p.operator.rules = [.negate])
    (h : Subject.mutateAt p.operator p.instruction f.body = some mutated) (count : Nat) :
    (p.mutate^[count] f).body = if count % 2 = 1 then mutated else f.body := by
  induction count with
  | zero => rfl
  | succ count ih =>
    rw [Function.iterate_succ_apply', mutate]
    dsimp only
    rw [ih]
    by_cases hodd : count % 2 = 1
    · have heven : ¬ (count + 1) % 2 = 1 := by omega
      have hback := (rewrites_of_mutateAt_eq_some hcatalog h).mutateAt_eq_some hnegates
      rw [if_pos hodd, if_neg heven, hback, Option.getD_some]
    · have hodd' : (count + 1) % 2 = 1 := by omega
      rw [if_neg hodd, if_pos hodd', h, Option.getD_some]

/-- Applications that have all found a site leave the mutation of the point where it is in force,
and else the loaded body. -/
theorem body_iterate_mutate {applied : List Point} {f : Function}
    (hcatalog : p.operator ∈ Operator.catalog)
    (hsites : ∀ count < applied.count p,
      (Subject.mutateAt p.operator p.instruction (p.mutate^[count] f).body).isSome) :
    (p.InForce applied → p.Rewrites f.body (p.mutate^[applied.count p] f).body) ∧
      (¬ p.InForce applied → (p.mutate^[applied.count p] f).body = f.body) := by
  by_cases happlied : p ∈ applied
  · have hpos : 0 < applied.count p := List.count_pos_iff.mpr happlied
    have hfirst : (Subject.mutateAt p.operator p.instruction f.body).isSome := hsites 0 hpos
    obtain ⟨mutated, hmutated⟩ := Option.isSome_iff_exists.mp hfirst
    have hrewrites : p.Rewrites f.body mutated := rewrites_of_mutateAt_eq_some hcatalog hmutated
    rcases Operator.settles_or_negates hcatalog with ⟨hid, hsettles⟩ | ⟨hid, hnegates⟩
    · have hone : p.mutate^[1] f = { f with body := mutated } := by
        rw [Function.iterate_one, mutate, hmutated, Option.getD_some]
      -- A second application would have found a site in what the first one has made.
      have hcount : applied.count p = 1 := by
        by_contra hne
        have hsome := hsites 1 (by omega)
        rw [hone, hrewrites.mutateAt_eq_none hsettles] at hsome
        cases hsome
      rw [hcount, hone]
      exact ⟨fun _ => hrewrites, fun hnot => absurd ⟨happlied, fun heq => absurd heq hid⟩ hnot⟩
    · rw [body_iterate_mutate_of_negates hcatalog hnegates hmutated]
      constructor
      · rintro ⟨-, hodd⟩
        rwa [if_pos (hodd hid)]
      · intro hnot
        exact if_neg fun hodd => hnot ⟨happlied, fun _ => hodd⟩
  · rw [List.count_eq_zero_of_not_mem happlied]
    exact ⟨fun hforce => absurd hforce.1 happlied, fun _ => rfl⟩

end Point

/-! ## Copies that are found by name -/

namespace Layout

/-- All copies of a layout are found in a module under their names, which were available. -/
structure Held (loaded : Module) (registered applied : List Point) (m : Module) : Prop where
  available : Available loaded registered
  found : ∀ g ∈ copies loaded registered applied, m.function? g.name = some g

namespace Held

variable {loaded : Module} {registered applied : List Point} {m : Module}

/-- Copies are found where they are put behind the loaded functions. -/
theorem append_copies (h : Available loaded registered) :
    Held loaded registered [] (loaded.append (copies loaded registered [])) where
  available := h
  found g hg := by
    have hderived : g.name ∈ allDerivedNames registered := by
      rw [← h.map_name_copies]
      exact List.mem_map_of_mem hg
    refine Module.function?_append_of_mem (h.free _ hderived) ?_ hg
    rw [h.map_name_copies]
    exact h.nodup

/-- Copies are still found when functions are added. -/
theorem append (h : Held loaded registered applied m) (fs : List Function) :
    Held loaded registered applied (m.append fs) where
  available := h.available
  found g hg := Module.function?_append_of_eq_some (h.found g hg)

/-- Copies are still found when a loaded function is removed. -/
theorem remove (h : Held loaded registered applied m) {name : String}
    (hname : name ∈ loaded.functionNames) : Held loaded registered applied (m.remove name) where
  available := h.available
  found g hg := by
    have hderived : g.name ∈ allDerivedNames registered := by
      rw [← h.available.map_name_copies]
      exact List.mem_map_of_mem hg
    have hne : g.name ≠ name := fun heq => h.available.free _ hderived (heq ▸ hname)
    rw [Module.function?_remove_of_ne hne, h.found g hg]

/-- The unmutated copy of a function is found as it was loaded. -/
theorem function?_pristineName (h : Held loaded registered applied m) {p : Point}
    (hp : p ∈ registered) {f : Function} (hf : loaded.function? p.function = some f) :
    m.function? (pristineName p.function) = some (f.named (pristineName p.function)) :=
  h.found _ (mem_copies_pristine (mem_mutatedNames.mpr ⟨p, hp, rfl⟩) hf)

/-- The copy of a point is found, mutated as often as the point was applied. -/
theorem function?_cloneName (h : Held loaded registered applied m) {p : Point}
    (hp : p ∈ registered) {f : Function} (hf : loaded.function? p.function = some f) :
    m.function? p.cloneName = some ((p.mutate^[applied.count p] f).named p.cloneName) :=
  h.found _ (mem_copies_mutant hp hf)

/-- Mutating the copy of a point changes that copy only. -/
theorem modify (h : Held loaded registered applied m) {p : Point} (hp : p ∈ registered)
    {f : Function} (hf : loaded.function? p.function = some f) {body : List Instruction}
    (hbody : Subject.mutateAt p.operator p.instruction (p.mutate^[applied.count p] f).body =
      some body) :
    Held loaded registered (applied ++ [p])
      (m.modify p.cloneName fun copy => { copy with body }) where
  available := h.available
  found g hg := by
    have hkeeps : ∀ copy : Function, ({ copy with body } : Function).name = copy.name :=
      fun _ => rfl
    rw [← h.available.map_copies hp hf hbody] at hg
    obtain ⟨copy, hcopy, rfl⟩ := List.mem_map.mp hg
    by_cases hname : copy.name = p.cloneName
    · rw [if_pos hname, ← hname, Module.function?_modify hkeeps, h.found copy hcopy]
      rfl
    · rw [if_neg hname, Module.function?_modify_of_ne hkeeps hname, h.found copy hcopy]

end Held

end Layout

namespace Subject

/-- Removing loaded functions keeps the copies. -/
theorem held_removeAll {loaded : Module} {registered applied : List Point} {s t : Subject}
    {names : List String} (h : Layout.Held loaded registered applied s.module)
    (hnames : ∀ name ∈ names, name ∈ loaded.functionNames)
    (hcall : s.removeAll names = (.ok (), t)) : Layout.Held loaded registered applied t.module := by
  induction names generalizing s with
  | nil =>
    obtain rfl : s = t := congrArg Prod.snd hcall
    exact h
  | cons name names ih =>
    rw [List.forall_mem_cons] at hnames
    rw [removeAll] at hcall
    split at hcall
    · exact ih (h.remove hnames.1) hnames.2 hcall
    · cases hcall

/-! ## The invariant -/

/-- A subject and its history, in a module whose functions may share names: the loaded code until
copying, and from then on the copies, mutated as often as their points were applied. -/
structure Lasting (loaded : Module) (registered applied : List Point) (s : Subject) : Prop where
  removable : s.Removable
  pending_eq : s.pending = Pending.ofPoints registered
  stage_eq_applied : s.stage = .applied ↔ applied ≠ []
  module_eq : s.stage.rank ≤ Stage.registered.rank → s.module = loaded
  held : Stage.registered.rank < s.stage.rank → Layout.Held loaded registered applied s.module
  /-- Every application found a site. -/
  sites : ∀ p ∈ registered, ∀ f, loaded.function? p.function = some f →
    ∀ count < applied.count p,
      (mutateAt p.operator p.instruction (p.mutate^[count] f).body).isSome

namespace Lasting

variable {loaded : Module} {registered applied : List Point} {s t : Subject}

/-- A module as it is loaded has no history. -/
theorem ofModule (id : ModuleId) (loaded : Module) :
    Lasting loaded [] [] (.ofModule id loaded) where
  removable := Removable.ofModule id loaded
  pending_eq := Pending.ofPoints_nil.symm
  stage_eq_applied := iff_of_false (by simp [Subject.ofModule]) (by simp)
  module_eq _ := rfl
  held h := absurd h (by simp [Subject.ofModule, Stage.rank])
  sites _ hp := absurd hp List.not_mem_nil

/-- Before the last stage, nothing is applied. -/
theorem applied_eq_nil (h : Lasting loaded registered applied s) (hstage : s.stage ≠ .applied) :
    applied = [] := by
  by_contra hne
  exact hstage (h.stage_eq_applied.mpr hne)

/-- Registering a point adds it to the history. -/
theorem register {p : Point} (h : Lasting loaded registered applied s)
    (hcall : s.register p = (.ok (), t)) : Lasting loaded (registered ++ [p]) applied t := by
  have hremovable := h.removable.perform (.register p)
  rw [Subject.perform, hcall] at hremovable
  obtain ⟨-, hrank, rfl⟩ := register_eq_ok hcall
  obtain rfl := h.applied_eq_nil fun hstage => by simp [hstage, Stage.rank] at hrank
  exact {
    removable := hremovable
    pending_eq := by rw [h.pending_eq, Pending.add_ofPoints]
    stage_eq_applied := iff_of_false (by simp) (by simp)
    module_eq := fun _ => h.module_eq hrank
    held := fun hlt => absurd hlt (lt_irrefl _)
    sites := fun _ _ _ _ _ hcount => absurd hcount (by simp) }

/-- The steps between registering and applying keep the history, as long as the copies are found
behind them. -/
theorem advance (h : Lasting loaded registered [] s) {m : Module} {stage : Stage}
    (hremovable : Removable { s with module := m, stage })
    (hrank : Stage.registered.rank < stage.rank) (hstage : stage ≠ .applied)
    (hheld : Layout.Held loaded registered [] m) :
    Lasting loaded registered [] { s with module := m, stage } where
  removable := hremovable
  pending_eq := h.pending_eq
  stage_eq_applied := iff_of_false hstage (fun hne => hne rfl)
  module_eq hle := absurd hrank (not_lt.mpr hle)
  held _ := hheld
  sites := h.sites

/-- Copying keeps the history. -/
theorem clone (h : Lasting loaded registered applied s) (hcall : s.perform .clone = (.ok (), t)) :
    Lasting loaded registered applied t := by
  have hremovable := h.removable.perform .clone
  rw [hcall] at hremovable
  obtain ⟨names, hclone⟩ := of_perform_clone_eq_ok hcall
  rcases clone_eq_ok hclone with ⟨-, rfl⟩ | ⟨-, hstage, fs, hfs, rfl⟩
  · exact h
  · have hmodule : s.module = loaded := h.module_eq (by rw [hstage])
    obtain rfl := h.applied_eq_nil (by rw [hstage]; decide)
    rw [hmodule, h.pending_eq] at hfs
    obtain ⟨rfl, havailable⟩ := available_of_allCopies_eq_ok hfs
    refine h.advance hremovable (by decide) (by decide) ?_
    rw [hmodule]
    exact Layout.Held.append_copies havailable

/-- Cutting out keeps the history: only loaded functions go. -/
theorem excise (h : Lasting loaded registered applied s) (hcall : s.perform .excise = (.ok (), t)) :
    Lasting loaded registered applied t := by
  have hremovable := h.removable.perform .excise
  rw [hcall] at hremovable
  rcases excise_eq_ok hcall with ⟨-, rfl⟩ | ⟨-, hstage, u, hu, rfl⟩
  · exact h
  · have hheld := h.held (by rw [hstage]; decide)
    obtain rfl := h.applied_eq_nil (by rw [hstage]; decide)
    have hkept : Layout.Held loaded registered [] u.module := by
      refine held_removeAll hheld (fun name hname => ?_) hu
      rw [h.pending_eq, Pending.map_fst_ofPoints] at hname
      exact hheld.available.mem_functionNames hname
    obtain ⟨fs, rfl⟩ := of_removeAll_eq hu
    exact h.advance hremovable (by decide) (by decide) hkept

/-- Redirecting keeps the history. -/
theorem redirect (h : Lasting loaded registered applied s)
    (hcall : s.perform .redirect = (.ok (), t)) : Lasting loaded registered applied t := by
  have hremovable := h.removable.perform .redirect
  rw [hcall] at hremovable
  rcases redirect_eq_ok hcall with ⟨-, rfl⟩ | ⟨-, hstage, fs, -, rfl⟩
  · exact h
  · have hheld := h.held (by rw [hstage]; decide)
    obtain rfl := h.applied_eq_nil (by rw [hstage]; decide)
    exact h.advance hremovable (by decide) (by decide) (hheld.append fs)

/-- In the last stages the copies are there. -/
theorem held_of_stage (h : Lasting loaded registered applied s)
    (hstage : s.stage = .redirected ∨ s.stage = .applied) :
    Layout.Held loaded registered applied s.module := by
  apply h.held
  rcases hstage with hstage | hstage <;> simp [hstage, Stage.rank]

/-- Applying a registered point adds it to the history. -/
theorem apply {p : Point} (hp : p ∈ registered) (h : Lasting loaded registered applied s)
    (hcall : s.perform (.apply p) = (.ok (), t)) :
    Lasting loaded registered (applied ++ [p]) t := by
  have hremovable := h.removable.perform (.apply p)
  rw [hcall] at hremovable
  obtain ⟨-, hstage, copy, body, hcopy, hbody, rfl⟩ := apply_eq_ok hcall
  have hheld := h.held_of_stage hstage
  obtain ⟨f, hf⟩ := Module.exists_function?_eq_some (hheld.available.defined p hp)
  obtain rfl := Option.some.inj ((hheld.function?_cloneName hp hf).symm.trans hcopy)
  rw [Function.body_named] at hbody
  exact {
    removable := hremovable
    pending_eq := h.pending_eq
    stage_eq_applied := iff_of_true rfl (by simp)
    module_eq := fun hle => absurd hle (by simp [Stage.rank])
    held := fun _ => hheld.modify hp hf hbody
    sites := sites_append h.sites hf hbody }

/-- **A call keeps the invariant**, whatever it answers. -/
theorem perform (h : Lasting loaded registered applied s) {call : Call}
    (hcall : ∀ p, call = .apply p → (s.perform call).1.isOk → p ∈ registered) :
    Lasting loaded
      (registered ++ if (s.perform call).1.isOk then call.registers?.toList else [])
      (applied ++ if (s.perform call).1.isOk then call.applies?.toList else [])
      (s.perform call).2 := by
  refine perform_history (fun e t hanswer => ?_) fun t hanswer => ?_
  · rwa [h.removable.perform_eq_error hanswer]
  · rw [hanswer] at hcall
    cases call with
    | register p => simpa [Call.registers?, Call.applies?] using h.register hanswer
    | clone => simpa [Call.registers?, Call.applies?] using h.clone hanswer
    | excise => simpa [Call.registers?, Call.applies?] using h.excise hanswer
    | redirect => simpa [Call.registers?, Call.applies?] using h.redirect hanswer
    | apply p => simpa [Call.registers?, Call.applies?] using h.apply (hcall p rfl rfl) hanswer

/-- **Calls keep the invariant**, in any order and with any failures, as long as every point that
is applied has been registered. -/
theorem after (h : Lasting loaded registered applied s) {calls : List Call}
    (happlied : ∀ p ∈ s.applied calls, p ∈ registered ++ s.registered calls) :
    Lasting loaded (registered ++ s.registered calls) (applied ++ s.applied calls)
      (s.after calls) :=
  after_induction (fun h hcall => h.perform hcall) h happlied

/-- The copies for a point in the last stage: the unmutated one has the loaded body, and its own one
has the mutation where it is in force, and else the loaded body. -/
theorem copies_of_stage (h : Lasting loaded registered applied s) {p : Point}
    (hp : p ∈ registered) (hcatalog : p.operator ∈ Operator.catalog)
    (hstage : s.stage = .redirected ∨ s.stage = .applied) :
    ∃ f pristine copy, loaded.function? p.function = some f ∧
      s.module.function? (pristineName p.function) = some pristine ∧ pristine.body = f.body ∧
      s.module.function? p.cloneName = some copy ∧
      (p.InForce applied → p.Rewrites f.body copy.body) ∧
      (¬ p.InForce applied → copy.body = f.body) := by
  have hheld := h.held_of_stage hstage
  obtain ⟨f, hf⟩ := Module.exists_function?_eq_some (hheld.available.defined p hp)
  have hbodies := Point.body_iterate_mutate hcatalog (h.sites p hp f hf)
  exact ⟨f, _, _, hf, hheld.function?_pristineName hp hf, rfl, hheld.function?_cloneName hp hf,
    hbodies⟩

/-- Applying a point again is refused when its operator settles. -/
theorem apply_eq_error (h : Lasting loaded registered applied s) {p : Point}
    (hp : p ∈ registered) (hmodule : p.module = s.id) (happlied : p ∈ applied)
    (hcatalog : p.operator ∈ Operator.catalog) (hid : p.operator.id ≠ "negate_condition") :
    s.apply p = (.error (.notApplicable p.id), s) := by
  have hstage : s.stage = .applied := h.stage_eq_applied.mpr (List.ne_nil_of_mem happlied)
  obtain ⟨f, pristine, copy, -, -, -, hcopy, hforce, -⟩ :=
    h.copies_of_stage hp hcatalog (.inr hstage)
  have hrewrites := hforce ⟨happlied, fun heq => absurd heq hid⟩
  rcases Operator.settles_or_negates hcatalog with ⟨-, hsettles⟩ | ⟨hnegates, -⟩
  · rw [Subject.apply, if_neg (not_not.mpr hmodule), if_neg (by simp [hstage]), hcopy]
    dsimp only
    rw [hrewrites.mutateAt_eq_none hsettles]
    rfl
  · exact absurd hnegates hid

end Lasting

end Subject

/-- The mutation of a point shows in a module: its copy is the unmutated copy with the mutation. -/
def Point.ShowsIn (p : Point) (m : Module) : Prop :=
  ∃ pristine copy, m.function? (pristineName p.function) = some pristine ∧
    m.function? p.cloneName = some copy ∧ p.Rewrites pristine.body copy.body

namespace Example

/-- A module with one comparison. -/
def comparing : Module where
  name := "order.c"
  functions := [
    { name := "less"
      params := 2
      body := [
        { operation := .compare 2 .slt 0 1 },
        { operation := .return (some 2) }] }]

/-- The comparison in `less` is negated. -/
def comparison : Point where
  operator :=
    { id := "negate_condition", description := "Negates a comparison", replacement := "!"
      diagnostic := "Negated comparison", rules := [.negate] }
  module := 0
  moduleName := "order.c"
  function := "less"
  instruction := 0

/-- Calls that apply the comparison a number of times. -/
def negating (times : Nat) : List Call :=
  [.register comparison, .clone, .excise, .redirect] ++ List.replicate times (.apply comparison)

end Example

namespace Subject

/-- **How long applied mutations last.** Make any calls on a module as it is loaded, which register
points of the catalog and apply registered points only. The last stage is reached with the first
application. From then on the unmutated copy for an applied point has the loaded body, and its own
copy has the loaded body with the one instruction rewritten, unless the operator negates and has
been applied an even number of times: then its copy has the loaded body too. Every other operator
refuses to be applied again. So in the last stage the mutations that show are those in force. -/
theorem applied_mutations_last (id : ModuleId) (loaded : Module) (calls : List Call)
    (hcatalog : ∀ p ∈ (ofModule id loaded).registered calls, p.operator ∈ Operator.catalog)
    (happlied : ∀ p ∈ (ofModule id loaded).applied calls,
      p ∈ (ofModule id loaded).registered calls) :
    let subject := (ofModule id loaded).after calls
    let registered := (ofModule id loaded).registered calls
    let applied := (ofModule id loaded).applied calls
    (subject.stage = .applied ↔ applied ≠ []) ∧
    (∀ p ∈ applied, ∃ f pristine copy, loaded.function? p.function = some f ∧
      subject.module.function? (pristineName p.function) = some pristine ∧
      pristine.body = f.body ∧ subject.module.function? p.cloneName = some copy ∧
      (p.InForce applied → p.Rewrites f.body copy.body) ∧
      (¬ p.InForce applied → copy.body = f.body)) ∧
    (∀ p ∈ applied, p.operator.id ≠ "negate_condition" →
      p.InForce applied ∧ subject.apply p = (.error (.notApplicable p.id), subject)) ∧
    (subject.stage = .applied →
      ∀ p ∈ registered, p.ShowsIn subject.module ↔ p.InForce applied) := by
  intro subject registered applied
  have hlasting : Lasting loaded registered applied subject :=
    (Lasting.ofModule id loaded).after happlied
  refine ⟨hlasting.stage_eq_applied, ?_, ?_, ?_⟩
  · intro p hp
    have hstage : subject.stage = .applied :=
      hlasting.stage_eq_applied.mpr (List.ne_nil_of_mem hp)
    have hregistered : p ∈ registered := happlied p hp
    exact hlasting.copies_of_stage hregistered (hcatalog p hregistered) (.inr hstage)
  · intro p hp hid
    have hregistered : p ∈ registered := happlied p hp
    have hmodule : p.module = subject.id := by
      rw [module_eq_of_mem_registered hregistered, id_after]
    exact ⟨⟨hp, fun heq => absurd heq hid⟩,
      hlasting.apply_eq_error hregistered hmodule hp (hcatalog p hregistered) hid⟩
  · intro hstage p hp
    obtain ⟨f, pristine, copy, -, hpristine, hbody, hcopy, hforce, hnot⟩ :=
      hlasting.copies_of_stage hp (hcatalog p hp) (.inr hstage)
    constructor
    · rintro ⟨pristine', copy', hpristine', hcopy', hrewrites⟩
      obtain rfl := Option.some.inj (hpristine.symm.trans hpristine')
      obtain rfl := Option.some.inj (hcopy.symm.trans hcopy')
      by_contra hundone
      exact hrewrites.ne ((hnot hundone).trans hbody.symm)
    · intro hinForce
      refine ⟨pristine, copy, hpristine, hcopy, ?_⟩
      rw [hbody]
      exact hforce hinForce

/-- `applied_mutations_last` where a comparison is negated three times. -/
theorem applied_mutations_last_example :
    Example.comparison.ShowsIn
      ((ofModule 0 Example.comparing).after (Example.negating 3)).module := by
  have hregistered : (ofModule 0 Example.comparing).registered (Example.negating 3) =
      [Example.comparison] := by
    decide +kernel
  have happlied : (ofModule 0 Example.comparing).applied (Example.negating 3) =
      List.replicate 3 Example.comparison := by
    decide +kernel
  have hlast := applied_mutations_last 0 Example.comparing (Example.negating 3)
    (by rw [hregistered]; decide +kernel) (by rw [hregistered, happlied]; decide +kernel)
  rw [hregistered, happlied] at hlast
  obtain ⟨hstage, -, -, hshows⟩ := hlast
  refine (hshows (hstage.mpr (by decide)) _ (List.mem_singleton_self _)).mpr ⟨by simp, fun _ => ?_⟩
  decide +kernel

/-- **A comparison that is negated twice is not mutated any more**, although both applications
succeed and the stage is the last one: no registered point shows. -/
theorem negating_twice_shows_nowhere :
    let subject := (ofModule 0 Example.comparing).after (Example.negating 2)
    (ofModule 0 Example.comparing).registered (Example.negating 2) = [Example.comparison] ∧
      (ofModule 0 Example.comparing).applied (Example.negating 2) =
        [Example.comparison, Example.comparison] ∧
      Example.comparison.operator ∈ Operator.catalog ∧
      subject.stage = .applied ∧ ¬ Example.comparison.ShowsIn subject.module := by
  intro subject
  have hpristine : (subject.module.function? (pristineName "less")).map Function.body =
      some [{ operation := .compare 2 .slt 0 1 }, { operation := .return (some 2) }] := by
    decide +kernel
  have hcopy : (subject.module.function? Example.comparison.cloneName).map Function.body =
      some [{ operation := .compare 2 .slt 0 1 }, { operation := .return (some 2) }] := by
    decide +kernel
  refine ⟨by decide +kernel, by decide +kernel, by decide +kernel, by decide +kernel, ?_⟩
  rintro ⟨pristine, copy, hpristine', hcopy', hrewrites⟩
  have hname : Example.comparison.function = "less" := rfl
  rw [hname] at hpristine'
  rw [hpristine', Option.map_some] at hpristine
  rw [hcopy', Option.map_some] at hcopy
  exact hrewrites.ne (Option.some.inj (hcopy.trans hpristine.symm))

end Subject

end MutationLab
