import Mathlib.Data.List.Forall2
import MutationLab.Proofs.Linking
import MutationLab.Proofs.Stepping

/-! # Stand-ins for functions

Two images behave alike when every function of the first has a stand-in in the second: a function of
the same code under its own symbol or behind a trampoline that chooses it. A `Replacement` collects
what has to be known about two such images. A step in the first image is one step in the second, or
two when a trampoline is passed (`Replacement.step_same`), and so a call ends in the one exactly
when it ends in the other (`Replacement.ends_iff`).

Some functions may have no stand-in, as long as the trace of the run shows that none of them has
been entered. -/

namespace MutationLab

/-- The symbol that a trampoline goes on with. -/
def choice (selector : Option String) (pristine : String) (targets : List (String × String)) :
    String :=
  (selector.bind fun mutant => targets.lookup mutant).getD pristine

/-- The machine makes the same choice among positions. -/
theorem choose_locate (selector : Option String) (position : String → Nat) (pristine : String)
    (targets : List (String × String)) :
    Machine.choose selector (position pristine)
        (targets.map fun target => (target.1, position target.2)) =
      position (choice selector pristine targets) := by
  rw [Machine.choose, choice]
  exact getD_lookup_map selector position pristine targets

/-- What a selector picks is one of the targets, or the pristine one. -/
theorem getD_lookup_mem (selector : Option String) (pristine : α) (targets : List (String × α)) :
    (selector.bind fun mutant => targets.lookup mutant).getD pristine ∈
      pristine :: targets.map Prod.snd := by
  cases hlookup : selector.bind fun mutant => targets.lookup mutant with
  | none => exact List.mem_cons_self
  | some target =>
    obtain ⟨mutant, -, hlookup⟩ := Option.bind_eq_some_iff.mp hlookup
    obtain ⟨before, behind, rfl, -⟩ := List.lookup_eq_some_iff.mp hlookup
    simp

/-- A trampoline goes on with its pristine symbol or with that of a target. -/
theorem choice_mem (selector : Option String) (pristine : String)
    (targets : List (String × String)) :
    choice selector pristine targets ∈ pristine :: targets.map Prod.snd :=
  getD_lookup_mem selector pristine targets

/-- A trampoline goes on with the target of the active mutant. -/
theorem choice_eq_of_mem {mutant symbol : String} {targets : List (String × String)}
    (hmem : (mutant, symbol) ∈ targets)
    (hunique : ∀ target ∈ targets, target.1 = mutant → target.2 = symbol) (pristine : String) :
    choice (some mutant) pristine targets = symbol := by
  rw [choice, Option.bind_some]
  induction targets with
  | nil => exact absurd hmem List.not_mem_nil
  | cons target targets ih =>
    rw [List.forall_mem_cons] at hunique
    rw [List.lookup_cons]
    split
    · rename_i heq
      exact hunique.1 (eq_of_beq heq).symm
    · rename_i hne
      obtain heq | hmem := List.mem_cons.mp hmem
      · rw [← heq, beq_self_eq_true] at hne
        exact nomatch hne
      · exact ih hmem hunique.2

/-- A trampoline goes on with its pristine symbol when no target is that of the active mutant. -/
theorem choice_eq_pristine {selector : Option String} {targets : List (String × String)}
    (h : ∀ target ∈ targets, selector ≠ some target.1) (pristine : String) :
    choice selector pristine targets = pristine := by
  rw [choice]
  cases selector with
  | none => rfl
  | some mutant =>
    rw [Option.bind_some]
    induction targets with
    | nil => rfl
    | cons target targets ih =>
      rw [List.forall_mem_cons] at h
      rw [List.lookup_cons]
      split
      · rename_i heq
        exact absurd (congrArg some (eq_of_beq heq)) h.1
      · exact ih h.2

/-- Functions that differ in their symbol and their probe at most. -/
structure CompiledFunction.SameBody (f g : CompiledFunction) : Prop where
  params : g.params = f.params
  registers : g.registers = f.registers
  code : g.code = f.code

/-- The trap that names other functions. An arity is checked under the symbol that is called from
outside, which is not renamed. -/
def Trap.rename (name : String → String) : Trap → Trap
  | divisionByZero f => divisionByZero (name f)
  | explicit f message => explicit (name f) message
  | malformed f detail => malformed (name f) detail
  | stackOverflow limit => stackOverflow limit
  | timeout => timeout
  | arityMismatch symbol expected given => arityMismatch symbol expected given
  | undefinedSymbol symbol => undefinedSymbol symbol

/-- Two images and runs of them, in which functions of the first have stand-ins in the second. -/
structure Replacement where
  /-- The first image. -/
  source : Image
  /-- The second image. -/
  target : Image
  /-- The functions of the first image. -/
  sourceFunctions : List CompiledFunction
  /-- The functions of the second image. -/
  targetFunctions : List CompiledFunction
  /-- How the first image runs. -/
  sourceSetup : Setup
  /-- How the second image runs. -/
  targetSetup : Setup
  /-- The symbol of the stand-in. -/
  standIn : String → String
  /-- The symbols of the functions that have a stand-in. -/
  covered : String → Prop
  /-- Probes of the other functions. -/
  avoided : List UInt32
  source_holds : source.Holds sourceFunctions
  target_holds : target.Holds targetFunctions
  source_never : sourceSetup.watchdog = .never
  target_never : targetSetup.watchdog = .never
  maxDepth_eq : targetSetup.maxDepth = sourceSetup.maxDepth
  body : ∀ f ∈ sourceFunctions, covered f.symbol →
    ∃ g ∈ targetFunctions, g.symbol = standIn f.symbol ∧ f.SameBody g
  /-- Under the symbol of a function stands its stand-in or a trampoline that chooses it. -/
  entry : ∀ f ∈ sourceFunctions, ∃ g ∈ targetFunctions, g.symbol = f.symbol ∧ g.params = f.params ∧
    (covered f.symbol → standIn f.symbol = f.symbol ∨ ∃ pristine targets,
      g.code = [.dispatch pristine targets] ∧
        choice targetSetup.selector pristine targets = standIn f.symbol)
  /-- The trampolines of the first image choose alike in both runs. -/
  choice_eq : ∀ f ∈ sourceFunctions, covered f.symbol → ∀ pristine targets,
    .dispatch pristine targets ∈ f.code →
      choice targetSetup.selector pristine targets = choice sourceSetup.selector pristine targets
  /-- Entering a function without a stand-in would show in the trace. -/
  traced : ∀ f ∈ sourceFunctions, ¬ covered f.symbol →
    sourceSetup.tracing = true ∧ ∃ probe ∈ avoided, f.probe = some probe

namespace Replacement

variable {R : Replacement}

/-! ## Related states -/

/-- A call of a function in the first image, and the same call of its stand-in in the second. -/
structure Runs (R : Replacement) (f : CompiledFunction) (a b : Frame) : Prop where
  mem : f ∈ R.sourceFunctions
  covered : R.covered f.symbol
  function_eq : a.function = f.locate R.source.position
  standIn : ∃ g ∈ R.targetFunctions, g.symbol = R.standIn f.symbol ∧ f.SameBody g ∧
    b = { a with function := g.locate R.target.position }

/-- Calls of a function and of its stand-in. -/
def Same (R : Replacement) (a b : Frame) : Prop := ∃ f, R.Runs f a b

/-- The same trap, naming stand-ins. -/
abbrev rename (R : Replacement) : Trap → Trap := Trap.rename R.standIn

/-- Attempts to go on that lead to related calls or end in the same trap. -/
inductive SameAttempt (R : Replacement) : Except Trap Frame → Except Trap Frame → Prop where
  /-- Both go on. -/
  | ok {a b : Frame} (h : R.Same a b) : SameAttempt R (.ok a) (.ok b)
  /-- Both end. -/
  | error (trap : Trap) : SameAttempt R (.error trap) (.error (R.rename trap))

/-- States behind steps that are related and have printed the same. -/
inductive SameNext (R : Replacement) : Next × Effects → Next × Effects → Prop where
  /-- Both runs go on. -/
  | go {a b : Frame} {as bs : List Frame} {e₁ e₂ : Effects} (htop : R.Same a b)
      (hbelow : List.Forall₂ R.Same as bs) (hout : e₂.stdout = e₁.stdout) :
      SameNext R (.go a as, e₁) (.go b bs, e₂)
  /-- Both runs are over. -/
  | stop {reply : Except Trap Int64} {e₁ e₂ : Effects} (hout : e₂.stdout = e₁.stdout) :
      SameNext R (.stop reply, e₁) (.stop (reply.mapError R.rename), e₂)

/-- The second run comes from one state to another at once or in one step. -/
def Settles (R : Replacement) (start finish : Next × Effects) : Prop :=
  start = finish ∨ ∃ top below e, start = (.go top below, e) ∧
    Machine.step R.target R.targetSetup top below e = finish

/-! ## Instructions inside a call -/

namespace Runs

variable {f : CompiledFunction} {a b : Frame}

/-- Both calls are at the same position. -/
theorem position_eq (h : R.Runs f a b) : b.position = a.position := by
  obtain ⟨g, -, -, -, rfl⟩ := h.standIn
  rfl

/-- They have the same registers. -/
theorem registers_eq (h : R.Runs f a b) : b.registers = a.registers := by
  obtain ⟨g, -, -, -, rfl⟩ := h.standIn
  rfl

/-- Their callers wait for the value in the same register. -/
theorem result_eq (h : R.Runs f a b) : b.result = a.result := by
  obtain ⟨g, -, -, -, rfl⟩ := h.standIn
  rfl

/-- They stand equally deep. -/
theorem depth_eq (h : R.Runs f a b) : b.depth = a.depth := by
  obtain ⟨g, -, -, -, rfl⟩ := h.standIn
  rfl

/-- The one function stands in for the other. -/
theorem symbol_eq (h : R.Runs f a b) :
    b.function.symbol = R.standIn a.function.symbol := by
  obtain ⟨g, -, hsymbol, -, rfl⟩ := h.standIn
  rw [h.function_eq]
  exact hsymbol

/-- Both calls would hand on the same arguments. -/
theorem arguments_eq (h : R.Runs f a b) :
    b.registers.take b.function.params.toNat = a.registers.take a.function.params.toNat := by
  obtain ⟨g, -, -, hbody, rfl⟩ := h.standIn
  rw [h.function_eq]
  exact congrArg (fun params : UInt32 => a.registers.take params.toNat) hbody.params

/-- The first image is linked, so whatever an instruction uses is a function of the program. -/
theorem provides (h : R.Runs f a b) {operation : ObjectOperation} (hoperation : operation ∈ f.code)
    {use : String × Nat} (huse : use ∈ operation.uses f.params.toNat) :
    Provides R.sourceFunctions use :=
  R.source_holds.provided f h.mem use (List.mem_flatMap.mpr ⟨operation, hoperation, huse⟩)

/-- A fault in the one call is the renamed fault in the other. -/
theorem malformed_eq (h : R.Runs f a b) (detail : String) :
    b.malformed detail = R.rename (a.malformed detail) := by
  rw [Frame.malformed, Frame.malformed, h.symbol_eq]
  rfl

/-- Both calls read the same from their registers. -/
theorem get_eq (h : R.Runs f a b) (r : Register) : b.get r = (a.get r).mapError R.rename := by
  rw [Frame.get, Frame.get, h.registers_eq, h.malformed_eq]
  cases a.registers.get? r.toNat <;> rfl

/-- Both calls read the same from several registers. -/
theorem getAll_eq (h : R.Runs f a b) (rs : List Register) :
    b.getAll rs = (a.getAll rs).mapError R.rename := by
  induction rs with
  | nil => rfl
  | cons r rs ih =>
    rw [Frame.getAll, Frame.getAll, h.get_eq, ih]
    cases a.get r with
    | error trap => rfl
    | ok value => cases a.getAll rs <;> rfl

/-- Both calls stay related when they go on at a position. -/
theorem moveTo (h : R.Runs f a b) (position : Nat) :
    R.Runs f { a with position } { b with position } := by
  obtain ⟨g, hg, hsymbol, hbody, rfl⟩ := h.standIn
  exact ⟨h.mem, h.covered, h.function_eq, g, hg, hsymbol, hbody, rfl⟩

/-- Both calls stay related when a register changes. -/
theorem set_same (h : R.Runs f a b) (r : Register) (value : Int64) :
    R.SameAttempt (a.set r value) (b.set r value) := by
  rw [Frame.set, Frame.set, h.registers_eq, h.malformed_eq]
  cases a.registers.set? r.toNat value with
  | none => exact .error _
  | some registers =>
    obtain ⟨g, hg, hsymbol, hbody, rfl⟩ := h.standIn
    exact .ok ⟨f, h.mem, h.covered, h.function_eq, g, hg, hsymbol, hbody, rfl⟩

end Runs

/-- What follows a value that both runs have read. -/
theorem bind_same {α : Type} {x : Except Trap α} {rest other : α → Except Trap Frame}
    (h : ∀ value, R.SameAttempt (rest value) (other value)) :
    R.SameAttempt (x >>= rest) (x.mapError R.rename >>= other) := by
  cases x with
  | error trap => exact .error trap
  | ok value => exact h value

section

variable {a b : Frame} {as bs : List Frame} {e₁ e₂ : Effects}

/-- Related attempts lead to related states. -/
theorem resume_same {x y : Except Trap Frame} (h : R.SameAttempt x y)
    (hbelow : List.Forall₂ R.Same as bs) (hout : e₂.stdout = e₁.stdout) :
    R.SameNext (Machine.resume as e₁ x) (Machine.resume bs e₂ y) := by
  cases h with
  | ok h => exact .go h hbelow hout
  | error trap => exact .stop hout

/-- Leaving related calls leads to related states. -/
theorem leave_same (result : Option Register) (value : Int64) (hbelow : List.Forall₂ R.Same as bs)
    (hout : e₂.stdout = e₁.stdout) :
    R.SameNext (Machine.leave result value as e₁) (Machine.leave result value bs e₂) := by
  cases hbelow with
  | nil => exact .stop hout
  | cons hcaller hbelow =>
    cases result with
    | none => exact .go hcaller hbelow hout
    | some dst =>
      obtain ⟨f, hcaller⟩ := hcaller
      exact resume_same (hcaller.set_same dst value) hbelow hout

/-! ## Beginning a call -/

/-- **A trampoline is passed in one step**, on to the function that it chooses. -/
theorem step_trampoline {g t : CompiledFunction} (hg : g ∈ R.targetFunctions)
    (hparams : g.params = t.params) {pristine : String} {targets : List (String × String)}
    (hcode : t.code = [.dispatch pristine targets])
    (hchoice : choice R.targetSetup.selector pristine targets = g.symbol)
    {arguments : List Int64} (harity : t.params.toNat = arguments.length)
    {result : Option Register} {depth : Nat} (hdepth : ¬ R.targetSetup.maxDepth ≤ depth)
    (e : Effects) :
    ∃ e', e'.stdout = e.stdout ∧
      Machine.step R.target R.targetSetup
          (.begin (t.locate R.target.position) arguments result depth) bs e =
        (.go (.begin (g.locate R.target.position) arguments result depth) bs, e') := by
  have hinstruction : (t.locate R.target.position).code[0]? =
      some (.dispatch (R.target.position pristine)
        (targets.map fun target => (target.1, R.target.position target.2))) := by
    rw [CompiledFunction.getElem?_code_locate, hcode]
    rfl
  rw [Machine.step_eq R.target_never hinstruction, Machine.execute, choose_locate, hchoice]
  dsimp only
  -- The trampoline hands on the arguments it was called with, as many as its target takes.
  have harity' : (g.locate R.target.position).params.toNat = arguments.length := by
    rw [CompiledFunction.params_locate, hparams, harity]
  rw [Frame.function_begin, Frame.result_begin, Frame.depth_begin, CompiledFunction.params_locate,
    Frame.take_begin harity,
    Machine.enter_of_eq (R.target_holds.function?_position hg) hdepth harity']
  refine ⟨_, ?_, rfl⟩
  rw [Effects.stdout_pass]

/-- **Beginning the same call in both images** leads to related states, in the second image behind
one more step where a trampoline stands. -/
theorem enter_same {f : CompiledFunction} (hf : f ∈ R.sourceFunctions)
    (hbelow : List.Forall₂ R.Same as bs) (hout : e₂.stdout = e₁.stdout) (arguments : List Int64)
    (result : Option Register) (depth : Nat)
    (havoided : ∀ probe ∈ R.avoided, probe ∉ (Machine.enter R.source R.sourceSetup
      (R.source.position f.symbol) arguments result depth e₁).2.trace.probes) :
    ∃ finish, R.Settles (Machine.proceed bs (Machine.enter R.target R.targetSetup
        (R.target.position f.symbol) arguments result depth e₂)) finish ∧
      R.SameNext (Machine.proceed as (Machine.enter R.source R.sourceSetup
        (R.source.position f.symbol) arguments result depth e₁)) finish := by
  obtain ⟨t, ht, hsymbol, hparams, hentry⟩ := R.entry f hf
  have hsource := R.source_holds.function?_position hf
  have htarget := R.target_holds.function?_position ht
  rw [hsymbol] at htarget
  -- Both images refuse at the same depth and for the same number of arguments.
  by_cases hdepth : R.sourceSetup.maxDepth ≤ depth
  · rw [Machine.enter_of_le hsource hdepth, Machine.enter_of_le htarget (R.maxDepth_eq ▸ hdepth),
      R.maxDepth_eq]
    exact ⟨_, .inl rfl, .stop hout⟩
  have hdepth' : ¬ R.targetSetup.maxDepth ≤ depth := R.maxDepth_eq ▸ hdepth
  by_cases harity : f.params.toNat = arguments.length
  · have harity' : t.params.toNat = arguments.length := hparams ▸ harity
    rw [Machine.enter_of_eq hsource hdepth harity] at havoided ⊢
    rw [Machine.enter_of_eq htarget hdepth' harity']
    -- The call has begun, so its function is one with a stand-in.
    have hcovered : R.covered f.symbol := by
      by_contra hother
      obtain ⟨htracing, probe, hprobe, hfprobe⟩ := R.traced f hf hother
      exact havoided probe hprobe (Effects.mem_trace_pass htracing hfprobe)
    obtain ⟨g, hg, hgsymbol, hbody⟩ := R.body f hf hcovered
    have hsame : R.Same (.begin (f.locate R.source.position) arguments result depth)
        (.begin (g.locate R.target.position) arguments result depth) := by
      refine ⟨f, hf, hcovered, rfl, g, hg, hgsymbol, hbody, ?_⟩
      have hregisters : (g.locate R.target.position).registers =
        (f.locate R.source.position).registers := hbody.registers
      rw [Frame.begin, Frame.begin, hregisters]
    obtain hself | ⟨pristine, targets, hcode, hchoice⟩ := hentry hcovered
    · obtain rfl := R.target_holds.eq_of_symbol_eq ht hg
        (hsymbol.trans (hself.symm.trans hgsymbol.symm))
      refine ⟨_, .inl rfl, .go hsame hbelow ?_⟩
      rw [Effects.stdout_pass, Effects.stdout_pass, hout]
    · obtain ⟨e', hout', hstep⟩ := step_trampoline hg (hbody.params.trans hparams.symm) hcode
        (hchoice.trans hgsymbol.symm) harity' hdepth'
        (e₂.pass R.targetSetup (t.locate R.target.position) depth)
      refine ⟨_, .inr ⟨_, _, _, rfl, hstep⟩, .go hsame hbelow ?_⟩
      rw [hout', Effects.stdout_pass, Effects.stdout_pass, hout]
  · have harity' : t.params.toNat ≠ arguments.length := hparams ▸ harity
    rw [Machine.enter_of_ne hsource hdepth harity, Machine.enter_of_ne htarget hdepth' harity',
      CompiledFunction.symbol_locate, CompiledFunction.symbol_locate,
      CompiledFunction.params_locate, CompiledFunction.params_locate, hsymbol, hparams]
    exact ⟨_, .inl rfl, .stop hout⟩

/-! ## Steps -/

section

variable {f : CompiledFunction} {a b : Frame} (h : R.Runs f a b)
  (hbelow : List.Forall₂ R.Same as bs) (hout : e₂.stdout = e₁.stdout)

include h hbelow hout

/-- A function called in related calls is entered alike; the callers wait below, related as they
were. -/
theorem call_same {dst : Option Register} {symbol : String} {args : List Register}
    (hoperation : .call dst symbol args ∈ f.code)
    (havoided : ∀ probe ∈ R.avoided, probe ∉ (Machine.execute R.source R.sourceSetup
      ((ObjectOperation.call dst symbol args).locate R.source.position) a as e₁).2.trace.probes) :
    ∃ finish, R.Settles (Machine.execute R.target R.targetSetup
        ((ObjectOperation.call dst symbol args).locate R.target.position) b bs e₂) finish ∧
      R.SameNext (Machine.execute R.source R.sourceSetup
        ((ObjectOperation.call dst symbol args).locate R.source.position) a as e₁) finish := by
  rw [ObjectOperation.locate, Machine.execute] at havoided ⊢
  rw [ObjectOperation.locate, Machine.execute, h.getAll_eq]
  cases hvalues : a.getAll args with
  | error trap => exact ⟨_, .inl rfl, .stop hout⟩
  | ok values =>
    rw [hvalues] at havoided
    obtain ⟨callee, hcallee, rfl, -⟩ := h.provides hoperation List.mem_cons_self
    rw [h.depth_eq]
    dsimp only at havoided
    rw [Machine.proceed_snd] at havoided
    exact enter_same hcallee (.cons ⟨f, h⟩ hbelow) hout values dst (a.depth + 1) havoided

/-- A trampoline of the program itself chooses alike in related calls. It gives up its own call, so
the callers below stay the same. -/
theorem dispatch_same {pristine : String} {targets : List (String × String)}
    (hoperation : .dispatch pristine targets ∈ f.code)
    (havoided : ∀ probe ∈ R.avoided, probe ∉ (Machine.execute R.source R.sourceSetup
      ((ObjectOperation.dispatch pristine targets).locate R.source.position) a as
        e₁).2.trace.probes) :
    ∃ finish, R.Settles (Machine.execute R.target R.targetSetup
        ((ObjectOperation.dispatch pristine targets).locate R.target.position) b bs e₂) finish ∧
      R.SameNext (Machine.execute R.source R.sourceSetup
        ((ObjectOperation.dispatch pristine targets).locate R.source.position) a as e₁) finish := by
  have hused : (choice R.sourceSetup.selector pristine targets, f.params.toNat) ∈
      ObjectOperation.uses f.params.toNat (.dispatch pristine targets) := by
    have hmem := List.mem_map_of_mem (f := fun symbol => (symbol, f.params.toNat))
      (choice_mem R.sourceSetup.selector pristine targets)
    rw [List.map_cons, List.map_map] at hmem
    exact hmem
  obtain ⟨callee, hcallee, hchosen, -⟩ := h.provides hoperation hused
  dsimp only at hchosen
  rw [ObjectOperation.locate, Machine.execute, choose_locate, ← hchosen,
    Machine.proceed_snd] at havoided
  rw [ObjectOperation.locate, Machine.execute, choose_locate, ObjectOperation.locate,
    Machine.execute, choose_locate, R.choice_eq f h.mem h.covered pristine targets hoperation,
    ← hchosen, h.arguments_eq, h.result_eq, h.depth_eq]
  exact enter_same hcallee hbelow hout _ a.result a.depth havoided

/-- **An instruction executed in related calls** leads to related states. -/
theorem execute_same {operation : ObjectOperation} (hoperation : operation ∈ f.code)
    (havoided : ∀ probe ∈ R.avoided, probe ∉ (Machine.execute R.source R.sourceSetup
      (operation.locate R.source.position) a as e₁).2.trace.probes) :
    ∃ finish, R.Settles (Machine.execute R.target R.targetSetup
        (operation.locate R.target.position) b bs e₂) finish ∧
      R.SameNext (Machine.execute R.source R.sourceSetup
        (operation.locate R.source.position) a as e₁) finish := by
  -- Only an instruction that enters a function can need a second step to settle.
  cases operation with
  | const dst value =>
    exact ⟨_, .inl rfl, resume_same (h.set_same dst value) hbelow hout⟩
  | binary dst kind lhs rhs =>
    refine ⟨_, .inl rfl, resume_same ?_ hbelow hout⟩
    rw [h.get_eq, h.get_eq]
    refine bind_same fun left => bind_same fun right => ?_
    cases kind.eval? left right with
    | some value => exact h.set_same dst value
    | none =>
      rw [h.symbol_eq]
      exact .error (.divisionByZero a.function.symbol)
  | compare dst predicate lhs rhs =>
    refine ⟨_, .inl rfl, resume_same ?_ hbelow hout⟩
    rw [h.get_eq, h.get_eq]
    exact bind_same fun left => bind_same fun right => h.set_same dst (predicate.value left right)
  | call dst symbol args => exact call_same h hbelow hout hoperation havoided
  | jump target => exact ⟨_, .inl rfl, .go ⟨f, h.moveTo target.toNat⟩ hbelow hout⟩
  | branch cond thenTarget elseTarget =>
    refine ⟨_, .inl rfl, resume_same ?_ hbelow hout⟩
    rw [h.get_eq]
    exact bind_same fun value => .ok ⟨f, h.moveTo _⟩
  | «return» value =>
    refine ⟨_, .inl rfl, ?_⟩
    rw [ObjectOperation.locate, ObjectOperation.locate]
    cases value with
    | none =>
      rw [Machine.execute, Machine.execute, h.result_eq]
      exact leave_same a.result 0 hbelow hout
    | some r =>
      rw [Machine.execute, Machine.execute, h.get_eq]
      cases a.get r with
      | error trap => exact .stop hout
      | ok value =>
        rw [h.result_eq]
        exact leave_same a.result value hbelow hout
  | print r =>
    refine ⟨_, .inl rfl, ?_⟩
    rw [ObjectOperation.locate, ObjectOperation.locate, Machine.execute, Machine.execute, h.get_eq]
    cases a.get r with
    | error trap => exact .stop hout
    | ok value => exact .go ⟨f, h⟩ hbelow (congrArg (· ++ toString value.toInt ++ "\n") hout)
  | trap message =>
    refine ⟨_, .inl rfl, ?_⟩
    rw [ObjectOperation.locate, ObjectOperation.locate, Machine.execute, Machine.execute,
      h.symbol_eq]
    exact .stop hout
  | nop => exact ⟨_, .inl rfl, .go ⟨f, h⟩ hbelow hout⟩
  | dispatch pristine targets => exact dispatch_same h hbelow hout hoperation havoided

end

/-- **A step in related calls** leads to related states. -/
theorem step_same {a b : Frame} (h : R.Same a b) (hbelow : List.Forall₂ R.Same as bs)
    (hout : e₂.stdout = e₁.stdout)
    (havoided : ∀ probe ∈ R.avoided,
      probe ∉ (Machine.step R.source R.sourceSetup a as e₁).2.trace.probes) :
    ∃ finish, R.Settles (Machine.step R.target R.targetSetup b bs e₂) finish ∧
      R.SameNext (Machine.step R.source R.sourceSetup a as e₁) finish := by
  obtain ⟨f, h⟩ := h
  -- Both functions have the same body, so both calls are at the same instruction.
  have hsource : a.function.code[a.position]? =
      f.code[a.position]?.map (ObjectOperation.locate R.source.position) := by
    rw [h.function_eq, CompiledFunction.getElem?_code_locate]
  have htarget : b.function.code[b.position]? =
      f.code[a.position]?.map (ObjectOperation.locate R.target.position) := by
    obtain ⟨g, -, -, hbody, rfl⟩ := h.standIn
    dsimp only
    rw [CompiledFunction.getElem?_code_locate, hbody.code]
  cases hcode : f.code[a.position]? with
  | none =>
    rw [hcode, Option.map_none] at hsource htarget
    rw [Machine.step_eq_of_none R.source_never hsource,
      Machine.step_eq_of_none R.target_never htarget, h.malformed_eq, h.position_eq]
    exact ⟨_, .inl rfl, .stop hout⟩
  | some operation =>
    rw [hcode, Option.map_some] at hsource htarget
    rw [Machine.step_eq R.source_never hsource] at havoided ⊢
    rw [Machine.step_eq R.target_never htarget, h.position_eq]
    have hticked : e₂.tick.stdout = e₁.tick.stdout := hout
    exact execute_same (h.moveTo _) hbelow hticked (List.mem_of_getElem? hcode) havoided

end

/-! ## Runs -/

namespace Settles

variable {start finish : Next × Effects} {fuel : Nat} {reply : Except Trap Int64} {e : Effects}

/-- What finishes from the state that is settled finishes from the one before. -/
theorem exists_runFrom (h : R.Settles start finish)
    (hrun : Machine.runFrom R.target R.targetSetup fuel finish = (some reply, e)) :
    ∃ more, Machine.runFrom R.target R.targetSetup more start = (some reply, e) := by
  obtain rfl | ⟨top, below, e₂, rfl, rfl⟩ := h
  · exact ⟨fuel, hrun⟩
  · refine ⟨fuel + 1, ?_⟩
    rw [Machine.runFrom, Machine.run_succ, hrun]

/-- What finishes from a state finishes from the one that it settles in, with no more fuel. -/
theorem exists_le (h : R.Settles start finish)
    (hrun : Machine.runFrom R.target R.targetSetup fuel start = (some reply, e)) :
    ∃ rest ≤ fuel, Machine.runFrom R.target R.targetSetup rest finish = (some reply, e) := by
  obtain rfl | ⟨top, below, e₂, rfl, rfl⟩ := h
  · exact ⟨fuel, Nat.le_refl _, hrun⟩
  · obtain _ | fuel := fuel
    · exact nomatch (Prod.mk.inj hrun).1
    rw [Machine.runFrom, Machine.run_succ] at hrun
    exact ⟨fuel, Nat.le_succ _, hrun⟩

end Settles

/-- **A finished run in the first image is finished by the second one**, with the same output and
the same reply up to the names in a trap. -/
theorem runFrom_same {fuel : Nat} {x y : Next × Effects} {reply : Except Trap Int64} {e : Effects}
    (h : R.SameNext x y)
    (hrun : Machine.runFrom R.source R.sourceSetup fuel x = (some reply, e))
    (havoided : ∀ probe ∈ R.avoided, probe ∉ e.trace.probes) :
    ∃ more e', Machine.runFrom R.target R.targetSetup more y =
      (some (reply.mapError R.rename), e') ∧ e'.stdout = e.stdout := by
  induction fuel generalizing x y with
  | zero =>
    cases h with
    | go => exact nomatch (Prod.mk.inj hrun).1
    | stop hout =>
      rw [Machine.runFrom, Prod.mk.injEq, Option.some.injEq] at hrun
      obtain ⟨rfl, rfl⟩ := hrun
      exact ⟨0, _, rfl, hout⟩
  | succ fuel ih =>
    cases h with
    | stop hout =>
      rw [Machine.runFrom, Prod.mk.injEq, Option.some.injEq] at hrun
      obtain ⟨rfl, rfl⟩ := hrun
      exact ⟨0, _, rfl, hout⟩
    | go htop hbelow hout =>
      rw [Machine.runFrom, Machine.run_succ] at hrun
      -- The trace of the whole run holds that of its first step.
      obtain ⟨finish, hsettles, hnext⟩ := step_same htop hbelow hout
        fun probe hprobe hmem => havoided probe hprobe (Machine.trace_runFrom hrun hmem)
      obtain ⟨more, e', hrun', hout'⟩ := ih hnext hrun
      obtain ⟨most, hrun''⟩ := hsettles.exists_runFrom hrun'
      refine ⟨most + 1, e', ?_, hout'⟩
      rw [Machine.runFrom, Machine.run_succ, hrun'']

/-- **A finished run in the second image is finished by the first one**, as no step of the first
takes less than a step of the second. -/
theorem exists_runFrom_of_target (havoided : R.avoided = []) {fuel : Nat} {x y : Next × Effects}
    {reply : Except Trap Int64} {e : Effects} (h : R.SameNext x y)
    (hrun : Machine.runFrom R.target R.targetSetup fuel y = (some reply, e)) :
    ∃ more reply' e', Machine.runFrom R.source R.sourceSetup more x = (some reply', e') := by
  -- A step of the first run may take two of the second, so the induction is on all smaller fuel.
  induction fuel using Nat.strongRecOn generalizing x y with
  | _ fuel ih =>
    cases h with
    | stop => exact ⟨0, _, _, rfl⟩
    | go htop hbelow hout =>
      obtain _ | fuel := fuel
      · exact nomatch (Prod.mk.inj hrun).1
      rw [Machine.runFrom, Machine.run_succ] at hrun
      obtain ⟨finish, hsettles, hnext⟩ := step_same htop hbelow hout
        fun probe hprobe => absurd hprobe (havoided ▸ List.not_mem_nil)
      obtain ⟨rest, hrest, hrun⟩ := hsettles.exists_le hrun
      obtain ⟨more, reply', e', hrun'⟩ := ih rest (Nat.lt_succ_of_le hrest) hnext hrun
      refine ⟨more + 1, reply', e', ?_⟩
      rw [Machine.runFrom, Machine.run_succ, hrun']

section

variable {f : CompiledFunction} {arguments : List Int64} {e₁ e₂ : Effects}

/-- **A call that ends in the first image ends alike in the second**, when its trace shows that it
has entered functions with a stand-in only. -/
theorem ends_of_source (hf : f ∈ R.sourceFunctions) (hout : e₂.stdout = e₁.stdout) {fuel : Nat}
    {reply : Except Trap Int64} {e : Effects}
    (hcall : Machine.callSymbol R.source R.sourceSetup fuel f.symbol arguments e₁ = (some reply, e))
    (havoided : ∀ probe ∈ R.avoided, probe ∉ e.trace.probes) :
    Machine.Ends R.target R.targetSetup f.symbol arguments e₂ (reply.mapError R.rename)
      e.stdout := by
  obtain ⟨t, ht, hsymbol, -⟩ := R.entry f hf
  rw [Machine.callSymbol_eq (R.source_holds.index?_eq_some hf)] at hcall
  have hbegun := Machine.trace_runFrom hcall
  rw [Machine.proceed_snd] at hbegun
  obtain ⟨finish, hsettles, hnext⟩ := enter_same hf .nil hout arguments none 0
    fun probe hprobe hmem => havoided probe hprobe (hbegun hmem)
  obtain ⟨more, e', hrun, hout'⟩ := runFrom_same hnext hcall havoided
  have hindex := R.target_holds.index?_eq_some ht
  rw [hsymbol] at hindex
  obtain ⟨most, hrun'⟩ := hsettles.exists_runFrom hrun
  refine ⟨most, e', ?_, hout'⟩
  rw [Machine.callSymbol_eq hindex, hrun']

/-- A call that ends in the second image ends in the first, when every function has a stand-in. -/
theorem exists_ends_of_target (havoided : R.avoided = []) (hf : f ∈ R.sourceFunctions)
    (hout : e₂.stdout = e₁.stdout) {reply : Except Trap Int64} {stdout : String}
    (h : Machine.Ends R.target R.targetSetup f.symbol arguments e₂ reply stdout) :
    ∃ reply' stdout', Machine.Ends R.source R.sourceSetup f.symbol arguments e₁ reply' stdout' := by
  obtain ⟨fuel, e, hcall, -⟩ := h
  obtain ⟨t, ht, hsymbol, -⟩ := R.entry f hf
  have hindex := R.target_holds.index?_eq_some ht
  rw [hsymbol] at hindex
  rw [Machine.callSymbol_eq hindex] at hcall
  obtain ⟨finish, hsettles, hnext⟩ := enter_same hf .nil hout arguments none 0
    fun probe hprobe => absurd hprobe (havoided ▸ List.not_mem_nil)
  obtain ⟨rest, -, hrest⟩ := hsettles.exists_le hcall
  obtain ⟨more, reply', e', hrun⟩ := exists_runFrom_of_target havoided hnext hrest
  refine ⟨reply', e'.stdout, more, e', ?_, rfl⟩
  rw [Machine.callSymbol_eq (R.source_holds.index?_eq_some hf), hrun]

/-- **A call ends in the second image exactly as it ends in the first**, when every function has a
stand-in. -/
theorem ends_iff (havoided : R.avoided = []) (hf : f ∈ R.sourceFunctions)
    (hout : e₂.stdout = e₁.stdout) {reply : Except Trap Int64} {stdout : String} :
    Machine.Ends R.target R.targetSetup f.symbol arguments e₂ reply stdout ↔
      ∃ reply', Machine.Ends R.source R.sourceSetup f.symbol arguments e₁ reply' stdout ∧
        reply = reply'.mapError R.rename := by
  have hforward : ∀ {reply' stdout'},
      Machine.Ends R.source R.sourceSetup f.symbol arguments e₁ reply' stdout' →
      Machine.Ends R.target R.targetSetup f.symbol arguments e₂ (reply'.mapError R.rename)
        stdout' := by
    rintro reply' _ ⟨fuel, e, hcall, rfl⟩
    exact ends_of_source hf hout hcall
      fun probe hprobe => absurd hprobe (havoided ▸ List.not_mem_nil)
  constructor
  · intro h
    -- The call ends somehow in the first image, and what follows for the second is how it ends.
    obtain ⟨reply', stdout', hsource⟩ := exists_ends_of_target havoided hf hout h
    obtain ⟨rfl, rfl⟩ := h.unique (hforward hsource)
    exact ⟨reply', hsource, rfl⟩
  · rintro ⟨reply', hsource, rfl⟩
    exact hforward hsource

end

end Replacement

end MutationLab
