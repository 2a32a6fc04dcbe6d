import MutationLab.Proofs.Probing.Transparent
import MutationLab.Proofs.Resolution
import MutationLab.Testing

/-! # Symbols are transparent

What is put in front of names does not matter to a program. Its symbols are the symbols of the same
program under the native mangling, recast (`Compilation.function_mangling`), so building commutes
with mangling as with every recasting. A recast image runs in lockstep with the image that it is
recast from (`Recasting.lockstep`), and every call of a symbol ends alike in both, up to the symbol
that a trap names (`Recasting.callSymbol_image`). Two builds of a program under two manglings are
therefore the same program, with the same tests (`Compilation.manglings_agree`). -/

namespace MutationLab

/-! ## Runs of a closed image -/

/-- **No call of a function of a closed image ends for want of a function**, whatever number of
arguments it is given. -/
theorem Image.Closed.call_ne_undefinedSymbol {image : Image} (hclosed : image.Closed) {index : Nat}
    {f : LinkedFunction} (hf : image.function? index = some f) (setup : Setup) (fuel : Nat)
    (arguments : List Int64) (e : Effects) (symbol : String) :
    (Machine.call image setup fuel index arguments e).1 ≠
      some (.error (.undefinedSymbol symbol)) := by
  intro hcall
  by_cases hdepth : setup.maxDepth ≤ 0
  · rw [Machine.call, Machine.enter_of_le hf hdepth] at hcall
    simp at hcall
  by_cases harity : f.params.toNat = arguments.length
  · -- The first call is supplied, and so are all that follow.
    have hentered : Machine.Resolved image
        (Machine.proceed [] (Machine.enter image setup index arguments none 0 e)).1 :=
      Machine.resolved_enter (fun _ h => absurd h List.not_mem_nil) hf harity none 0 e
    rw [Machine.call_eq] at hcall
    have hend := Machine.iterate_eq_stop hcall ▸ Machine.resolved_iterate hclosed hentered fuel
    cases hend with
    | stop h =>
      cases h with
      | error h => exact absurd h.symm Bool.false_ne_true
  · rw [Machine.call, Machine.enter_of_ne hf hdepth harity] at hcall
    simp at hcall

/-! ## Running a recast image -/

namespace Recasting

variable (R : Recasting)

/-- The trap that names another symbol. -/
def trap : Trap → Trap
  | .undefinedSymbol symbol => .undefinedSymbol (R.symbol symbol)
  | trap => trap.relabel R.symbol

/-- A trap that names no missing function is that of a function under another symbol. -/
theorem trap_of_ne {trap : Trap} (h : ∀ symbol, trap ≠ .undefinedSymbol symbol) :
    R.trap trap = trap.relabel R.symbol := by
  cases trap with
  | undefinedSymbol symbol => exact absurd rfl (h symbol)
  | _ => rfl

/-- The same value, or the trap that names another symbol. -/
def reply : Except Trap Int64 → Except Trap Int64 := Except.mapError R.trap

/-- A recast image has the recast functions. -/
theorem function?_image (image : Image) (index : Nat) :
    (R.image image).function? index = (image.function? index).map R.linked :=
  Array.getElem?_map ..

/-- If the probes are the same, recast functions pass them alike. -/
theorem pass_linked (hprobe : R.probe = id) (setup : Setup) (f : LinkedFunction) (depth : Nat)
    (e : Effects) : e.pass setup (R.linked f) depth = e.pass setup f depth := by
  rw [Effects.pass, Effects.pass, linked, hprobe]
  rfl

/-- **A recast image runs in lockstep** with the image that it is recast from, if the probes are the
same. -/
def lockstep (hprobe : R.probe = id) (image : Image) (setup : Setup) : Lockstep where
  source := image
  target := R.image image
  sourceSetup := setup
  targetSetup := setup
  function := R.linked
  position := id
  effects e := e
  symbol := R.symbol
  symbol_function _ := rfl
  params_function _ := rfl
  registers_function _ := rfl
  code_function f index := by
    rw [Code.relocate_id, Option.map_id]
    rfl
  function?_position := R.function?_image image
  position_of_none index _ := id_eq index
  agrees := .refl setup
  stopsAt_iff _ := Iff.rfl
  tick_effects _ := rfl
  print_effects _ _ := rfl
  pass_effects := R.pass_linked hprobe setup

/-- Recast functions stand where they stood. -/
theorem index?_image (image : Image) (symbol : String) :
    (R.image image).index? (R.symbol symbol) = image.index? symbol := by
  rw [Image.index?, Image.index?, Recasting.image, Array.findIdx?_map]
  refine congrArg (fun p => image.functions.findIdx? p) (funext fun f => ?_)
  exact decide_eq_decide.mpr R.injective.eq_iff

/-- **A call of a recast symbol ends alike** in the recast image. -/
theorem callSymbol_image (hprobe : R.probe = id) {image : Image} (hclosed : image.Closed)
    (setup : Setup) (fuel : Nat) (symbol : String) (arguments : List Int64) (e : Effects) :
    Machine.callSymbol (R.image image) setup fuel (R.symbol symbol) arguments e =
      Prod.map (Option.map R.reply) id
        (Machine.callSymbol image setup fuel symbol arguments e) := by
  rw [Machine.callSymbol, Machine.callSymbol, index?_image]
  cases hindex : image.index? symbol with
  | none => rfl
  | some index =>
    have hlt : index < image.functions.size := (Array.findIdx?_eq_some_iff_getElem.mp hindex).1
    have hmissing := hclosed.call_ne_undefinedSymbol (Array.getElem?_eq_getElem hlt) setup fuel
      arguments e
    refine ((R.lockstep hprobe image setup).call_relabel fuel index arguments e).trans ?_
    -- The lockstep leaves missing functions unnamed, but none is missing.
    refine Prod.ext (Option.map_congr fun reply hreply => ?_) rfl
    cases reply with
    | ok value => rfl
    | error trap =>
      refine congrArg Except.error (R.trap_of_ne fun symbol htrap => hmissing symbol ?_).symm
      exact htrap ▸ hreply

end Recasting

/-! ## Manglings -/

namespace Mangling

/-- Nothing is put in front of a name that stays as it is. -/
@[simp] theorem mangle_native (name : String) : native.mangle name = name := String.empty_append

/-- Names become symbols, and probes stay. -/
def recasting (m : Mangling) : Recasting where
  symbol := m.mangle
  injective _ _ := m.mangle_injective
  probe := id

end Mangling

namespace Compilation

/-- An operation has the symbols of the names in it. -/
theorem lower_mangling (m : Mangling) (operation : Operation) :
    operation.lower m = m.recasting.operation (operation.lower .native) := by
  -- Only calls and trampolines name functions.
  cases operation with
  | call dst callee args =>
    rw [Operation.lower, Operation.lower, Mangling.mangle_native]
    rfl
  | dispatch pristine targets =>
    simp only [Operation.lower, Mangling.mangle_native, Recasting.operation, List.map_map]
    rfl
  | _ => rfl

variable (m : Mangling) (probes : Option Probes)

/-- **A function compiles with symbols in the place of names.** -/
theorem function_mangling (id : ModuleId) (f : Function) :
    function { mangling := m, probes } id f =
      m.recasting.function (function { mangling := .native, probes } id f) := by
  have hcode : f.body.map (fun i => i.operation.lower m) =
      (f.body.map fun i => i.operation.lower .native).map m.recasting.operation := by
    rw [List.map_map]
    exact List.map_congr_left fun i _ => lower_mangling m i.operation
  simp only [function, Recasting.function, hcode, Mangling.mangle_native]
  rfl

/-- So does a program. -/
theorem compileAll_mangling (ms : List Module) :
    compileAll { mangling := m, probes } 0 ms =
      (compileAll { mangling := .native, probes } 0 ms).map
        (List.map (ObjectFile.recompiled m.recasting.function probes.isSome)) :=
  compileAll_recompiled (function_mangling m probes) 0 ms

end Compilation

/-- Object files link alike under other symbols. -/
theorem Mangling.link_recompiled (m : Mangling) (instrumented : Bool)
    (objects : List ObjectFile) :
    Image.link (objects.map (ObjectFile.recompiled m.recasting.function instrumented)) =
      ((Image.link objects).map m.recasting.image).mapError m.recasting.error :=
  m.recasting.link_map (m.recasting.ofObjects_recompiled instrumented objects)

/-- **Calls end alike under two manglings**, or neither of them ends. -/
theorem Mangling.calls_agree (a b : Mangling) {image : Image} (hclosed : image.Closed)
    (name : String) (arguments : List Int64) (setup : Setup) (e : Effects) :
    (∃ fuel reply e',
        Machine.callSymbol (a.recasting.image image) setup fuel (a.mangle name) arguments e =
          (some (a.recasting.reply reply), e') ∧
        Machine.callSymbol (b.recasting.image image) setup fuel (b.mangle name) arguments e =
          (some (b.recasting.reply reply), e')) ∨
      Machine.Diverges (a.recasting.image image) setup (a.mangle name) arguments e ∧
        Machine.Diverges (b.recasting.image image) setup (b.mangle name) arguments e := by
  have hcall : ∀ (m : Mangling) (fuel : Nat),
      Machine.callSymbol (m.recasting.image image) setup fuel (m.mangle name) arguments e =
        Prod.map (Option.map m.recasting.reply) id
          (Machine.callSymbol image setup fuel name arguments e) := fun m fuel =>
    m.recasting.callSymbol_image rfl hclosed setup fuel name arguments e
  -- Whether the call of the name ends decides for both manglings.
  by_cases hends : ∃ fuel reply,
      (Machine.callSymbol image setup fuel name arguments e).1 = some reply
  · obtain ⟨fuel, reply, hreply⟩ := hends
    refine .inl ⟨fuel, reply, (Machine.callSymbol image setup fuel name arguments e).2, ?_, ?_⟩
    · rw [hcall a fuel, Prod.map_apply', hreply]
      rfl
    · rw [hcall b fuel, Prod.map_apply', hreply]
      rfl
  · have hnone : ∀ m : Mangling, Machine.Diverges (m.recasting.image image) setup (m.mangle name)
        arguments e := fun m fuel => by
      rw [hcall m fuel, Prod.map_fst, Option.map_eq_none_iff]
      exact Option.eq_none_iff_forall_ne_some.mpr fun reply hreply => hends ⟨fuel, reply, hreply⟩
    exact .inr ⟨hnone a, hnone b⟩

/-! ## Tests -/

/-- The test under its symbol. -/
def Mangling.test (m : Mangling) (t : Test) : Test := { t with symbol := m.mangle t.name }

/-- The result without the text of a fault, which names a symbol. -/
def ExecutionResult.unnamed (result : ExecutionResult) : ExecutionResult :=
  { result with stderr := "" }

namespace Testing

variable (m : Mangling)

/-- The functions of a module that are tests are so under every mangling. -/
theorem findIn_mangling (module : ModuleId) (next : TestId) (fs : List Function) :
    findIn m module next fs = Prod.map (List.map m.test) id (findIn .native module next fs) := by
  -- Names and parameters decide what is a test; the symbol is only written down.
  induction fs generalizing next with
  | nil => rfl
  | cons f fs ih =>
    rw [findIn, findIn]
    split_ifs
    · exact ih next
    · rw [ih]
      rfl
    · rw [ih]
      rfl

/-- **The same tests are found** under every mangling, each under its symbol. -/
theorem findAll_mangling (next : TestId) (ss : List Subject) :
    findAll m next ss = Prod.map (List.map m.test) id (findAll .native next ss) := by
  induction ss generalizing next with
  | nil => rfl
  | cons s ss ih =>
    rw [findAll, findAll, findIn_mangling]
    dsimp only [Prod.map_fst, Prod.map_snd]
    rw [List.length_map, ih]
    dsimp only [Prod.map_fst, Prod.map_snd]
    rw [Prod.map_apply, List.map_append]
    rfl

/-- An outcome is judged alike, whatever symbol a trap names. -/
theorem unnamed_judge (R : Recasting) (outcome : Option (Except Trap Int64)) :
    (judge (outcome.map R.reply)).unnamed = (judge outcome).unnamed := by
  rcases outcome with _ | trap | value
  · rfl
  · -- The watchdog is told from other faults, and its fault names no symbol.
    cases trap <;> rfl
  · rfl

/-- **A test is judged alike** under every mangling, and passes the same probes. -/
theorem run_mangling {image : Image} (hclosed : image.Closed) (test : Test)
    (context : TestContext) :
    Prod.map ExecutionResult.unnamed id (run (m.recasting.image image) (m.test test) context) =
      Prod.map ExecutionResult.unnamed id (run image (Mangling.native.test test) context) := by
  have hcall := m.recasting.callSymbol_image rfl hclosed
    { selector := context.selector, watchdog := context.watchdog, tracing := context.tracing }
    (Machine.fuelFor context.watchdog) test.name [] {}
  have hindex : (m.recasting.image image).index? (m.mangle test.name) = image.index? test.name :=
    m.recasting.index?_image image test.name
  have hsymbol : m.recasting.symbol test.name = m.mangle test.name := rfl
  rw [Machine.callSymbol, Machine.callSymbol, hsymbol, hindex] at hcall
  rw [run, run, Mangling.test, Mangling.test, Mangling.mangle_native]
  dsimp only
  rw [hindex]
  cases hentry : image.index? test.name with
  | none => rfl
  | some entry =>
    rw [hentry] at hcall
    dsimp only at hcall ⊢
    rw [hcall]
    generalize Machine.call image _ (Machine.fuelFor context.watchdog) entry [] {} = ended
    have hjudge := unnamed_judge m.recasting ended.1
    refine Prod.ext ?_ rfl
    exact congrArg (fun r : ExecutionResult => { r with stdout := ended.2.stdout }) hjudge

/-- The tests found under one mangling are those found under another, under other symbols. -/
theorem find_simple (a b : Mangling) (program : Program) :
    (simple a).find program =
      Prod.map (List.map a.test) id ((simple b).find program) := by
  have hrenamed : List.map a.test ∘ List.map b.test = List.map a.test := by
    rw [List.map_comp_map]
    rfl
  rw [simple, simple]
  dsimp only
  rw [findAll_mangling a, findAll_mangling b, Prod.map_map, hrenamed]
  rfl

end Testing

/-- **Manglings are transparent.** Whatever two manglings put in front of names, a program compiles
under both of them or fails under both with the same error, and it links under both or fails under
both with the same error up to the symbols of the names in it. If it links, call the symbol of any
name in both images, with the same arguments, setup and past: both calls end with the same value, or
with the same trap up to the symbol in it, and leave the same text, steps and trace behind; or
neither of them ends. The built-in framework finds the same tests under both, each under its symbol,
and runs them alike in both images: the results differ in the text of a fault at most, and the same
probes are passed. -/
theorem Compilation.manglings_agree (a b : Mangling) (probes : Option Probes) (ms : List Module) :
    Alike
      (fun objects others =>
        (∃ error, Image.link objects = .error (a.recasting.error error) ∧
          Image.link others = .error (b.recasting.error error)) ∨
        ∃ image other, Image.link objects = .ok image ∧ Image.link others = .ok other ∧
          (∀ name arguments setup e,
            (∃ fuel reply e',
              Machine.callSymbol image setup fuel (a.mangle name) arguments e =
                (some (a.recasting.reply reply), e') ∧
              Machine.callSymbol other setup fuel (b.mangle name) arguments e =
                (some (b.recasting.reply reply), e')) ∨
            Machine.Diverges image setup (a.mangle name) arguments e ∧
              Machine.Diverges other setup (b.mangle name) arguments e) ∧
          ∀ test context,
            Prod.map ExecutionResult.unnamed id
                ((Testing.simple a).run image (a.test test) context) =
              Prod.map ExecutionResult.unnamed id
                ((Testing.simple b).run other (b.test test) context))
      (compileAll { mangling := a, probes } 0 ms)
      (compileAll { mangling := b, probes } 0 ms) ∧
    ∀ program, (Testing.simple a).find program =
      Prod.map (List.map a.test) id ((Testing.simple b).find program) := by
  refine ⟨?_, Testing.find_simple a b⟩
  rw [compileAll_mangling a, compileAll_mangling b]
  -- Both builds are recast from the build under the native mangling.
  cases compileAll { mangling := .native, probes } 0 ms with
  | error e => exact rfl
  | ok objects =>
    show _ ∨ _
    rw [Mangling.link_recompiled, Mangling.link_recompiled]
    cases hlink : Image.link objects with
    | error e => exact .inl ⟨e, rfl, rfl⟩
    | ok image =>
      have hclosed : image.Closed := (Image.link_eq_ok_iff.mp hlink).closed
      refine .inr ⟨_, _, rfl, rfl, a.calls_agree b hclosed, fun test context => ?_⟩
      exact (Testing.run_mangling a hclosed test context).trans
        (Testing.run_mangling b hclosed test context).symm

end MutationLab
