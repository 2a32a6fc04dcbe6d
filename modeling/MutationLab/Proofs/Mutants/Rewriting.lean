import MutationLab.Proofs.Mutants.Building
import MutationLab.Proofs.Safety

/-! # Whatever calls are made, modules stay buildable

Points may be applied that are not registered: then a trampoline or a loaded function is mutated,
and it can be done only once the copies have been made. `Altered` relates a subject behind any calls
to one in which nothing is applied, whose code is a known layout. Function by function, the subject
has the same name and arity, is mutated at some points, and so uses no other symbols or registers
(`Altered.functions`). That is why it still compiles at every stage, and links in the last two
(`rewriting_keeps_modules_buildable`). -/

namespace MutationLab

/-- What other functions see of a function. -/
def Function.signature (f : Function) : String × UInt32 := (f.name, f.params)

/-! ## Functions that are mutated one by one -/

section

variable {fs gs : List Function}

/-- Mutating a function where it stands. -/
theorem forall₂_mutatesTo_modifyFirst (h : List.Forall₂ Function.MutatesTo fs gs) {name : String}
    {copy : Function} (hcopy : gs.find? (·.name = name) = some copy) {p : Point}
    {body : List Instruction}
    (hbody : Subject.mutateAt p.operator p.instruction copy.body = some body) :
    List.Forall₂ Function.MutatesTo fs
      (Module.modifyFirst name (fun f => { f with body }) gs) := by
  induction h with
  | nil => cases hcopy
  | @cons f g fs gs hfg hrest ih =>
    unfold Module.modifyFirst
    by_cases hname : g.name = name
    · rw [List.find?_cons_of_pos (by simpa using hname)] at hcopy
      obtain rfl := Option.some.inj hcopy
      rw [if_pos hname]
      refine .cons (.tail hfg ⟨p, ?_⟩) hrest
      rw [Point.mutate, hbody, Option.getD_some]
    · rw [List.find?_cons_of_neg (by simpa using hname)] at hcopy
      rw [if_neg hname]
      exact .cons hfg (ih hcopy)

/-- Functions that are mutated keep their signatures. -/
theorem map_signature_of_mutatesTo (h : List.Forall₂ Function.MutatesTo fs gs) :
    gs.map Function.signature = fs.map Function.signature := by
  induction h with
  | nil => rfl
  | cons hfg _ ih =>
    rw [List.map_cons, List.map_cons, ih, Function.signature, Function.signature, hfg.name_eq,
      hfg.params_eq]

/-- Every one of them comes from a function. -/
theorem exists_mutatesTo_of_mem (h : List.Forall₂ Function.MutatesTo fs gs) {g : Function}
    (hg : g ∈ gs) : ∃ f ∈ fs, f.MutatesTo g := by
  induction h with
  | nil => cases hg
  | @cons f g' fs gs hfg _ ih =>
    rcases List.mem_cons.mp hg with rfl | hg
    · exact ⟨f, List.mem_cons_self, hfg⟩
    · rcases ih hg with ⟨f', hf', hmutates⟩
      exact ⟨f', List.mem_cons_of_mem f hf', hmutates⟩

end

/-- Functions of one signature list have one list of names. -/
theorem Module.functionNames_eq_of_signatures {m n : Module}
    (h : m.functions.map Function.signature = n.functions.map Function.signature) :
    m.functionNames = n.functionNames := by
  have hnames := congrArg (List.map Prod.fst) h
  simpa [functionNames, Function.signature, Function.comp_def] using hnames

namespace Layout

variable {loaded : Module} {registered applied : List Point}

/-- Applying points changes no signature. -/
theorem map_signature_functions :
    (functions loaded registered applied .applied).map Function.signature =
      (functions loaded registered [] .applied).map Function.signature := by
  have hcopies : (copies loaded registered applied).map Function.signature =
      (copies loaded registered []).map Function.signature := by
    unfold copies
    rw [List.map_flatMap, List.map_flatMap]
    refine List.flatMap_congr fun name _ => ?_
    unfold copiesOf
    cases loaded.function? name with
    | none => rfl
    | some f =>
      simp only [List.map_cons, List.map_map]
      congr 1
      refine List.map_congr_left fun p _ => ?_
      simp [Function.signature, (Function.MutatesTo.iterate_mutate p _ f).params_eq]
  simp only [functions, List.map_append, hcopies]

end Layout

namespace Subject

/-! ## Any calls -/

/-- In the last stage, only applying points still changes a module. -/
theorem perform_of_stage_eq_applied {s : Subject} (hstage : s.stage = .applied) {call : Call}
    (hcall : call.applies? = none) : (s.perform call).2 = s := by
  rcases hanswer : s.perform call with ⟨answer | ⟨⟩, t⟩
  · rcases perform_eq_error hanswer with rfl | ⟨-, hcloned, -⟩
    · rfl
    · rw [hstage] at hcloned
      cases hcloned
  · -- Every other step has a stage of its own, which lies before the last one.
    cases call with
    | register p =>
      obtain ⟨-, hrank, -⟩ := register_eq_ok hanswer
      rw [hstage] at hrank
      exact absurd hrank (by decide)
    | clone =>
      obtain ⟨names, hclone⟩ := of_perform_clone_eq_ok hanswer
      rcases clone_eq_ok hclone with ⟨-, rfl⟩ | ⟨-, hother, -⟩
      · rfl
      · simp [hstage] at hother
    | excise =>
      rcases excise_eq_ok hanswer with ⟨-, rfl⟩ | ⟨-, hother, -⟩
      · rfl
      · simp [hstage] at hother
    | redirect =>
      rcases redirect_eq_ok hanswer with ⟨-, rfl⟩ | ⟨-, hother, -⟩
      · rfl
      · simp [hstage] at hother
    | apply p => cases hcall

/-- Module `id` was loaded with the code `loaded`, points are registered in it, and any points are
applied, registered or not. Without the applications the subject would be `base`. -/
structure Altered (id : ModuleId) (loaded : Module) (registered : List Point) (base s : Subject) :
    Prop where
  reached : Reached id loaded registered [] base
  functions : List.Forall₂ Function.MutatesTo base.module.functions s.module.functions
  /-- Only in the last stages is there a difference. -/
  eq_or : s = base ∨ Stage.redirected.rank ≤ base.stage.rank ∧ s.stage = .applied

namespace Altered

variable {id : ModuleId} {loaded : Module} {registered : List Point} {base s : Subject}

/-- Without applications there is no difference. -/
theorem refl (h : Reached id loaded registered [] s) : Altered id loaded registered s s where
  reached := h
  functions := List.forall₂_same.mpr fun _ _ => .refl
  eq_or := .inl rfl

/-- Applying a point makes a difference in one function. -/
theorem apply (h : Altered id loaded registered base s) (p : Point) :
    Altered id loaded registered base (s.apply p).2 := by
  rcases hanswer : s.apply p with ⟨answer | ⟨⟩, t⟩
  · have hperform : s.perform (.apply p) = (.error answer, t) := hanswer
    rcases perform_eq_error hperform with rfl | ⟨hexcise, -⟩
    · exact h
    · cases hexcise
  · obtain ⟨-, hstage, copy, body, hcopy, hbody, rfl⟩ := apply_eq_ok hanswer
    refine ⟨h.reached, forall₂_mutatesTo_modifyFirst h.functions hcopy hbody, .inr ⟨?_, rfl⟩⟩
    rcases h.eq_or with rfl | ⟨hrank, -⟩
    · rcases hstage with hstage | hstage <;> simp [hstage, Stage.rank]
    · exact hrank

/-- **Every call keeps this**, with a base that no application has changed. -/
theorem perform (hnames : loaded.functionNames.Nodup) (h : Altered id loaded registered base s)
    (call : Call) :
    ∃ base', Altered id loaded
      (registered ++ if (s.perform call).1.isOk then call.registers?.toList else [])
      base' (s.perform call).2 := by
  by_cases hcall : call.applies? = none
  · rcases h.eq_or with rfl | ⟨-, hstage⟩
    · -- The call is one of those that `Reached` accounts for.
      have hnone : ∀ p, call = .apply p → (s.perform call).1.isOk → p ∈ registered := by
        rintro p rfl
        cases hcall
      have hreached := h.reached.perform hnames hnone
      rw [hcall] at hreached
      refine ⟨_, refl ?_⟩
      simpa using hreached
    · have hnone : s.registered [call] = [] :=
        registered_eq_nil (by rw [hstage]; decide) [call]
      rw [registered_cons] at hnone
      rw [(List.append_eq_nil_iff.mp hnone).1, List.append_nil,
        perform_of_stage_eq_applied hstage hcall]
      exact ⟨base, h⟩
  · cases call with
    | apply p =>
      have hnext : Altered id loaded registered base (s.perform (.apply p)).2 := h.apply p
      exact ⟨base, by simpa [Call.registers?] using hnext⟩
    | _ => exact absurd rfl hcall

/-- **Any calls keep this**, in any order and with any failures. -/
theorem after (hnames : loaded.functionNames.Nodup) (h : Altered id loaded registered base s)
    (calls : List Call) :
    ∃ base', Altered id loaded (registered ++ s.registered calls) base' (s.after calls) := by
  induction calls generalizing registered base s with
  | nil => exact ⟨base, by simpa [Subject.registered] using h⟩
  | cons call calls ih =>
    obtain ⟨base', hnext⟩ := h.perform hnames call
    rw [registered_cons, ← List.append_assoc]
    exact ih hnext

/-- Calls on a module as it is loaded. -/
theorem ofModule (id : ModuleId) (loaded : Module) (hnames : loaded.functionNames.Nodup)
    (calls : List Call) :
    ∃ base, Altered id loaded ((Subject.ofModule id loaded).registered calls) base
      ((Subject.ofModule id loaded).after calls) := by
  have hloaded : Altered id loaded [] (.ofModule id loaded) (.ofModule id loaded) :=
    refl (Reached.ofModule id loaded)
  simpa using hloaded.after hnames calls

/-- Behind copying, the derived names are fresh. Before, and without points, there is nothing to
derive. -/
theorem fresh (hnames : loaded.functionNames.Nodup) (h : Altered id loaded registered base s)
    (hstage : registered ≠ [] → Stage.registered.rank < s.stage.rank) :
    Layout.Fresh loaded registered := by
  by_cases hnil : registered = []
  · subst hnil
    exact ⟨fun p hp => absurd hp List.not_mem_nil, by simpa [allDerivedNames] using hnames⟩
  · apply h.reached.fresh
    rcases h.eq_or with rfl | ⟨hrank, -⟩
    · exact hstage hnil
    · exact lt_of_lt_of_le (by decide) hrank

/-- Function by function, the code is the layout of a stage. -/
theorem functions_layout (h : Altered id loaded registered base s) :
    List.Forall₂ Function.MutatesTo (Layout.functions loaded registered [] base.stage)
      s.module.functions := by
  have hfunctions := h.functions
  rwa [h.reached.module_eq] at hfunctions

/-- **The module stays sound** at every stage. -/
theorem sound (h : Altered id loaded registered base s) (hsound : loaded.Sound) :
    s.module.Sound := by
  have hsignatures := map_signature_of_mutatesTo h.functions
  constructor
  · rw [Module.functionNames_eq_of_signatures hsignatures]
    exact h.reached.nodup_functionNames hsound.nodup
  · intro g hg
    rcases exists_mutatesTo_of_mem h.functions_layout hg with ⟨f, hf, hmutates⟩
    exact hmutates.sound (Layout.sound_of_mem_functions hsound.functions hf)

/-- Its registers can still be counted. -/
theorem countable (h : Altered id loaded registered base s) (hcountable : loaded.Countable) :
    s.module.Countable := by
  intro g hg i hi r hr
  rcases exists_mutatesTo_of_mem h.functions_layout hg with ⟨f, hf, hmutates⟩
  rcases hmutates.exists_mem_registers hi hr with ⟨j, hj, hr⟩
  rcases Layout.exists_mem_registers_of_mem_functions hf hj hr with ⟨f', hf', j', hj', hr⟩
  exact hcountable f' hf' j' hj' r hr

/-- In the last two stages, and without points, the code is the last layout, function by
function. -/
theorem functions_last_layout (h : Altered id loaded registered base s)
    (hstage : registered ≠ [] → s.stage = .redirected ∨ s.stage = .applied) :
    List.Forall₂ Function.MutatesTo (Layout.functions loaded registered [] .applied)
      s.module.functions := by
  have hlayout := h.functions_layout
  by_cases hnil : registered = []
  · subst hnil
    rw [h.reached.stage_eq_pristine.mpr rfl] at hlayout
    rwa [Layout.functions_nil]
  · have hbase : base.stage = .redirected ∨ base.stage = .applied := by
      rcases h.eq_or with rfl | ⟨hrank, -⟩
      · exact hstage hnil
      · revert hrank
        cases base.stage <;> simp [Stage.rank]
    rcases hbase with hbase | hbase <;> rwa [hbase] at hlayout

end Altered

end Subject

/-! ## Programs -/

/-- The modules of a program behind calls on each of them. -/
def modulesAfter (calls : ModuleId → List Call) (ms : List Module) : List Module :=
  ms.mapIdx fun id m => ((Subject.ofModule id m).after (calls id)).module

/-- The points that calls register in the modules of a program. -/
def pointsAfter (calls : ModuleId → List Call) (ms : List Module) : List Point :=
  ms.zipIdx.flatMap fun entry => (Subject.ofModule entry.2 entry.1).registered (calls entry.2)

theorem getElem?_modulesAfter (calls : ModuleId → List Call) (ms : List Module) (id : ModuleId) :
    (modulesAfter calls ms)[id]? =
      ms[id]?.map fun m => ((Subject.ofModule id m).after (calls id)).module := by
  rw [modulesAfter, List.getElem?_mapIdx]

/-- Points that are listed module by module are found again by their modules. -/
theorem pointsIn_flatMap_zipIdx (points : Module × Nat → List Point)
    (hmodule : ∀ entry, ∀ p ∈ points entry, p.module = entry.2) {ms : List Module} {id : Nat}
    {m : Module} (hm : ms[id]? = some m) (first : Nat) :
    pointsIn ((ms.zipIdx first).flatMap points) (first + id) = points (m, first + id) := by
  have hother : ∀ entry : Module × Nat, ∀ number : Nat, number ≠ entry.2 →
      pointsIn (points entry) number = [] := by
    intro entry number hne
    refine List.filter_eq_nil_iff.mpr fun p hp => ?_
    rw [hmodule entry p hp, decide_eq_true_iff]
    exact Ne.symm hne
  have hown : ∀ entry : Module × Nat, pointsIn (points entry) entry.2 = points entry :=
    fun entry => List.filter_eq_self.mpr fun p hp => decide_eq_true (hmodule entry p hp)
  -- The points of the first module carry its number, those of the modules behind it larger ones.
  induction ms generalizing first id with
  | nil => cases hm
  | cons n ms ih =>
    rw [List.zipIdx_cons, List.flatMap_cons, pointsIn, List.filter_append]
    change pointsIn (points (n, first)) (first + id) ++
      pointsIn ((ms.zipIdx (first + 1)).flatMap points) (first + id) = _
    cases id with
    | zero =>
      obtain rfl : n = m := Option.some.inj hm
      have hrest : pointsIn ((ms.zipIdx (first + 1)).flatMap points) first = [] := by
        rw [pointsIn, List.filter_flatMap, List.flatMap_eq_nil_iff]
        intro entry hentry
        have hle := List.le_snd_of_mem_zipIdx hentry
        exact hother entry first (by omega)
      rw [Nat.add_zero, hrest, List.append_nil, hown (n, first)]
    | succ id =>
      rw [List.getElem?_cons_succ] at hm
      have hnext := ih hm (first + 1)
      rw [Nat.add_right_comm, Nat.add_assoc] at hnext
      rw [hother (n, first) _ (by simp), List.nil_append, hnext]

/-- The points that are registered in a module are those of the module. -/
theorem pointsIn_pointsAfter {calls : ModuleId → List Call} {ms : List Module} {id : ModuleId}
    {m : Module} (hm : ms[id]? = some m) :
    pointsIn (pointsAfter calls ms) id = (Subject.ofModule id m).registered (calls id) := by
  have hpoints := pointsIn_flatMap_zipIdx
    (fun entry => (Subject.ofModule entry.2 entry.1).registered (calls entry.2))
    (fun _ _ hp => Subject.module_eq_of_mem_registered hp) hm 0
  rwa [Nat.zero_add] at hpoints

/-- Behind calls, sound modules are sound. -/
theorem sound_modulesAfter {ms : List Module} (hsound : ∀ m ∈ ms, m.Sound)
    (calls : ModuleId → List Call) : ∀ n ∈ modulesAfter calls ms, n.Sound := by
  intro n hn
  obtain ⟨id, hid⟩ := List.mem_iff_getElem?.mp hn
  rw [getElem?_modulesAfter] at hid
  obtain ⟨m, hm, rfl⟩ := Option.map_eq_some_iff.mp hid
  have hloaded := hsound m (List.mem_of_getElem? hm)
  obtain ⟨base, haltered⟩ := Subject.Altered.ofModule id m hloaded.nodup (calls id)
  exact haltered.sound hloaded

section

variable {ms : List Module} {calls : ModuleId → List Call} (hsound : ∀ m ∈ ms, m.Sound)
  (hstages : ∀ (id : ModuleId) (m : Module), ms[id]? = some m →
    (Subject.ofModule id m).registered (calls id) ≠ [] →
      ((Subject.ofModule id m).after (calls id)).stage = .redirected ∨
      ((Subject.ofModule id m).after (calls id)).stage = .applied)

include hsound hstages

/-- The derived names of the registered points are fresh. -/
theorem freshNames_pointsAfter : FreshNames ms (pointsAfter calls ms) := by
  rintro ⟨m, id⟩ hentry
  have hm := List.mem_zipIdx_iff_getElem?.mp hentry
  have hnames := (hsound m (List.mem_of_getElem? hm)).nodup
  obtain ⟨base, haltered⟩ := Subject.Altered.ofModule id m hnames (calls id)
  rw [pointsIn_pointsAfter hm]
  refine haltered.fresh hnames fun hne => ?_
  rcases hstages id m hm hne with hstage | hstage <;> rw [hstage] <;> decide

/-- Behind the calls, a module is the one with the mutants of its registered points, but for the
bodies of its functions. -/
theorem map_signature_modulesAfter {id : ModuleId} {m : Module} (hm : ms[id]? = some m) :
    ((Subject.ofModule id m).after (calls id)).module.functions.map Function.signature =
      (m.withMutants (pointsIn (pointsAfter calls ms) id)).functions.map Function.signature := by
  have hnames := (hsound m (List.mem_of_getElem? hm)).nodup
  obtain ⟨base, haltered⟩ := Subject.Altered.ofModule id m hnames (calls id)
  have hlayout := haltered.functions_last_layout (hstages id m hm)
  rw [pointsIn_pointsAfter hm, Module.withMutants, Layout.map_signature_functions]
  exact map_signature_of_mutatesTo hlayout

/-- So the names of the program are those of the program with the mutants. -/
theorem flatMap_functionNames_modulesAfter :
    (modulesAfter calls ms).flatMap Module.functionNames =
      (withMutants ms (pointsAfter calls ms)).flatMap Module.functionNames := by
  have hnames : (modulesAfter calls ms).map Module.functionNames =
      (withMutants ms (pointsAfter calls ms)).map Module.functionNames := by
    apply List.ext_getElem?
    intro id
    rw [List.getElem?_map, List.getElem?_map, getElem?_modulesAfter, getElem?_withMutants]
    cases hm : ms[id]? with
    | none => rfl
    | some m =>
      have hsignatures := map_signature_modulesAfter hsound hstages hm
      simp only [Option.map_some, Module.functionNames_eq_of_signatures hsignatures]
  rw [List.flatMap_def, List.flatMap_def, hnames]

/-- What the program with the mutants provides is provided behind the calls. -/
theorem provides_modulesAfter {c : Compilation} {extra : List ObjectFile} {use : String × Nat}
    (h : Provides (c.programFunctions (withMutants ms (pointsAfter calls ms)) extra) use) :
    Provides (c.programFunctions (modulesAfter calls ms) extra) use := by
  refine provides_of_exists_mem rfl (fun id n hn f hf => ?_) h
  rw [getElem?_withMutants] at hn
  obtain ⟨m, hm, rfl⟩ := Option.map_eq_some_iff.mp hn
  refine ⟨_, by rw [getElem?_modulesAfter, hm]; rfl, ?_⟩
  have hsignature := List.mem_map_of_mem (f := Function.signature) hf
  rw [← map_signature_modulesAfter hsound hstages hm] at hsignature
  obtain ⟨g, hg, hsame⟩ := List.mem_map.mp hsignature
  exact ⟨g, hg, congrArg Prod.fst hsame, congrArg Prod.snd hsame⟩

/-- Behind the calls, modules use only what is provided with the mutants. -/
theorem provided_modulesAfter {c d : Compilation} (hmangling : c.mangling = d.mangling)
    {extra : List ObjectFile}
    (hprovided : ∀ f ∈ d.programFunctions ms extra, ∀ use ∈ f.uses,
      Provides (d.programFunctions ms extra) use) :
    ∀ f ∈ c.programFunctions (modulesAfter calls ms) extra, ∀ use ∈ f.uses,
      Provides (c.programFunctions (modulesAfter calls ms) extra) use := by
  have hnames : ∀ m ∈ ms, m.functionNames.Nodup := fun m hm => (hsound m hm).nodup
  intro g hg use huse
  apply provides_modulesAfter hsound hstages
  rcases Compilation.mem_programFunctions.mp hg with ⟨id, n, hn, g, hg, rfl⟩ | ⟨o, ho, hg⟩
  · rw [getElem?_modulesAfter] at hn
    obtain ⟨m, hm, rfl⟩ := Option.map_eq_some_iff.mp hn
    obtain ⟨base, haltered⟩ :=
      Subject.Altered.ofModule id m (hnames m (List.mem_of_getElem? hm)) (calls id)
    rcases exists_mutatesTo_of_mem haltered.functions_layout hg with ⟨f, hf, hmutates⟩
    rw [← pointsIn_pointsAfter hm] at hf
    exact provides_of_mem_functions hmangling hnames hprovided hm hf
      (hmutates.uses_subset c id huse)
  · have hmem : g ∈ d.programFunctions ms extra :=
      Compilation.mem_programFunctions.mpr (.inr ⟨o, ho, hg⟩)
    exact provides_withMutants hmangling hnames (hprovided g hmem use huse)

/-- Behind the calls, no symbol is defined twice, as long as the derived names are free. -/
theorem nodup_symbols_modulesAfter {c d : Compilation} (hmangling : c.mangling = d.mangling)
    {extra : List ObjectFile}
    (hnodup : ((d.programFunctions ms extra).map CompiledFunction.symbol).Nodup)
    (hfree : ∀ (id : ModuleId) (m : Module), ms[id]? = some m →
      ∀ p ∈ (Subject.ofModule id m).registered (calls id), ∀ derived ∈ derivedNames p.function [p],
        (∀ (other : ModuleId) (n : Module), ms[other]? = some n → other ≠ id →
          derived ∉ n.functionNames) ∧
        ∀ o ∈ extra, c.mangling.mangle derived ∉ o.functions.map CompiledFunction.symbol) :
    ((c.programFunctions (modulesAfter calls ms) extra).map CompiledFunction.symbol).Nodup := by
  rw [c.map_symbol_programFunctions, flatMap_functionNames_modulesAfter hsound hstages,
    ← c.map_symbol_programFunctions]
  refine List.nodup_iff_count_le_one.mpr fun symbol => ?_
  by_contra htwice
  -- A symbol that stands twice is a derived one, and these are free.
  obtain ⟨p, hp, derived, hderived, rfl, hclash⟩ :=
    exists_clash_of_two_le_count (freshNames_pointsAfter hsound hstages) hmangling hnodup
      (Nat.lt_of_not_le htwice)
  obtain ⟨id, m, hm, hregistered⟩ := mem_flatMap_zipIdx.mp hp
  have hmodule : p.module = id := Subject.module_eq_of_mem_registered hregistered
  obtain ⟨hmodules, hobjects⟩ := hfree id m hm p hregistered derived hderived
  rcases hclash with ⟨other, n, hn, hne, hdefined⟩ | ⟨o, ho, hdefined⟩
  · exact hmodules other n hn (fun heq => hne (heq.trans hmodule.symm)) hdefined
  · exact hobjects o ho hdefined

end

namespace Example

/-- Calls that apply a registered point and twice try one that is not. -/
def straying : List Call :=
  [.apply subtraction, .register addition, .clone, .excise, .apply addition, .redirect,
    .apply subtraction, .apply addition]

end Example

/-- **Whatever calls are made, modules stay buildable.** Make any calls on a module that compiles,
with any points: registered or not, in any order, succeeding or failing. The module compiles
afterwards, and its registers can still be counted. Make such calls on every module of a program
that links with some object files. If every module with registered points has its trampolines, and
no name that is derived from a registered point is defined by another module or an object file, then
the program links afterwards with the same object files. -/
theorem rewriting_keeps_modules_buildable :
    (∀ (c d : Compilation) (id : ModuleId) (loaded : Module) (o : ObjectFile) (calls : List Call),
      d.compile id loaded = .ok o → loaded.Countable →
      let rewritten := ((Subject.ofModule id loaded).after calls).module
      rewritten.Countable ∧ ∃ o', c.compile id rewritten = .ok o') ∧
    ∀ (c d : Compilation) (ms : List Module) (extra : List ObjectFile) (original : Image)
      (calls : ModuleId → List Call), c.mangling = d.mangling → d.Builds ms extra original →
      (∀ id m, ms[id]? = some m → (Subject.ofModule id m).registered (calls id) ≠ [] →
        ((Subject.ofModule id m).after (calls id)).stage = .redirected ∨
        ((Subject.ofModule id m).after (calls id)).stage = .applied) →
      (∀ id m, ms[id]? = some m → ∀ p ∈ (Subject.ofModule id m).registered (calls id),
        ∀ derived ∈ derivedNames p.function [p],
          (∀ other n, ms[other]? = some n → other ≠ id → derived ∉ n.functionNames) ∧
          ∀ o ∈ extra, c.mangling.mangle derived ∉ o.functions.map CompiledFunction.symbol) →
      ∃ image, c.Builds (modulesAfter calls ms) extra image := by
  constructor
  · intro c d id loaded o calls hcompile hcountable rewritten
    have hsound : loaded.Sound := (Compilation.compile_eq_ok_iff.mp hcompile).1
    obtain ⟨base, haltered⟩ := Subject.Altered.ofModule id loaded hsound.nodup calls
    exact ⟨haltered.countable hcountable,
      _, Compilation.compile_eq_ok_iff.mpr ⟨haltered.sound hsound, rfl⟩⟩
  · intro c d ms extra original calls hmangling horiginal hstages hfree
    obtain ⟨hsound, hholds⟩ := Compilation.builds_iff.mp horiginal
    exact ⟨_, Compilation.builds_ofFunctions (sound_modulesAfter hsound calls)
      (nodup_symbols_modulesAfter hsound hstages hmangling hholds.nodup hfree)
      (provided_modulesAfter hsound hstages hmangling hholds.provided)⟩

/-- `rewriting_keeps_modules_buildable` where some calls are refused. -/
theorem rewriting_keeps_modules_buildable_example :
    (∃ o, Example.compilation.compile 0
      ((Subject.ofModule 0 Example.arithmetic).after Example.straying).module = .ok o) ∧
    ∃ image, Example.compilation.Builds
      (modulesAfter (fun _ => Example.straying) [Example.arithmetic]) [] image := by
  obtain ⟨hcompiles, hlinks⟩ := rewriting_keeps_modules_buildable
  have hloaded : Example.compilation.compile 0 Example.arithmetic =
      .ok (Example.compilation.object 0 Example.arithmetic) :=
    Compilation.compile_eq_ok_iff.mpr ⟨by decide +kernel, rfl⟩
  have hregistered : (Subject.ofModule 0 Example.arithmetic).registered Example.straying =
      [Example.addition] := by
    decide +kernel
  refine ⟨(hcompiles _ _ 0 _ _ Example.straying hloaded (by decide +kernel)).2, ?_⟩
  refine hlinks _ _ [Example.arithmetic] [] Example.original (fun _ => Example.straying) rfl
    Example.builds_original ?_ ?_
  · intro id m hm _
    obtain ⟨rfl, rfl⟩ : id = 0 ∧ m = Example.arithmetic := by
      cases id with
      | zero => exact ⟨rfl, (Option.some.inj hm).symm⟩
      | succ id => cases hm
    exact .inr (by decide +kernel)
  · intro id m hm p hp derived _
    refine ⟨fun other n hn hne => ?_, fun o ho => absurd ho List.not_mem_nil⟩
    cases id with
    | zero =>
      cases other with
      | zero => exact absurd rfl hne
      | succ other => cases hn
    | succ id => cases hm

end MutationLab
