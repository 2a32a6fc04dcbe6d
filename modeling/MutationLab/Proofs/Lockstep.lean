import MutationLab.Proofs.Stepping
import MutationLab.Proofs.Success

/-! # Machines in lockstep

Two machines run in lockstep when the functions of the first have counterparts in the second, with
the same code up to the positions of functions, and what the second leaves behind follows from what
the first leaves behind. A `Lockstep` lists what has to be known about single functions and single
effects for this; then every step, every run and every call of the second machine is that of the
first one, carried over (`Lockstep.step_eq`, `Lockstep.runFrom_eq`, `Lockstep.call_relabel`). The
counterparts may have other symbols, which then appear in traps; where they have not, both calls end
in the same way (`Lockstep.call_eq`). -/

namespace MutationLab

/-- The instruction with functions at other positions. -/
def Code.relocate (position : Nat → Nat) : Code → Code
  | const dst value => .const dst value
  | binary dst kind lhs rhs => .binary dst kind lhs rhs
  | compare dst predicate lhs rhs => .compare dst predicate lhs rhs
  | call dst callee args => .call dst (position callee) args
  | jump target => .jump target
  | branch cond thenTarget elseTarget => .branch cond thenTarget elseTarget
  | Code.return value => .return value
  | print value => .print value
  | trap message => .trap message
  | nop => .nop
  | dispatch pristine targets =>
      .dispatch (position pristine) (targets.map fun target => (target.1, position target.2))

/-- Nothing changes when all functions stay where they are. -/
theorem Code.relocate_id : relocate id = id := by
  funext code
  cases code with
  | dispatch pristine targets => exact congrArg (Code.dispatch pristine) (List.map_id' targets)
  | _ => rfl

/-- The trap of a function under another symbol. A function that is missing has none, only a
position. -/
def Trap.relabel (symbol : String → String) : Trap → Trap
  | divisionByZero f => divisionByZero (symbol f)
  | explicit f message => explicit (symbol f) message
  | malformed f detail => malformed (symbol f) detail
  | arityMismatch f expected given => arityMismatch (symbol f) expected given
  | stackOverflow limit => stackOverflow limit
  | timeout => timeout
  | undefinedSymbol position => undefinedSymbol position

/-- Under the same symbol it is the same trap. -/
theorem Trap.relabel_id : relabel id = id := by
  funext trap
  cases trap <;> rfl

/-- A machine makes the same choice among functions at other positions. -/
theorem Machine.choose_relocate (selector : Option String) (position : Nat → Nat) (pristine : Nat)
    (targets : List (String × Nat)) :
    choose selector (position pristine)
        (targets.map fun target => (target.1, position target.2)) =
      position (choose selector pristine targets) := by
  exact getD_lookup_map selector position pristine targets

/-- Two setups activate the same mutant and allow the same number of calls. -/
structure Setup.Agrees (s t : Setup) : Prop where
  selector_eq : t.selector = s.selector
  maxDepth_eq : t.maxDepth = s.maxDepth

theorem Setup.Agrees.refl (s : Setup) : s.Agrees s := ⟨rfl, rfl⟩

/-- Two machines that run in lockstep. -/
structure Lockstep where
  /-- The image of the first machine. -/
  source : Image
  /-- The image of the second machine. -/
  target : Image
  /-- How the first machine runs. -/
  sourceSetup : Setup
  /-- How the second machine runs. -/
  targetSetup : Setup
  /-- The counterpart of a function. -/
  function : LinkedFunction → LinkedFunction
  /-- The position of a counterpart. -/
  position : Nat → Nat
  /-- What the second machine leaves behind. -/
  effects : Effects → Effects
  /-- The symbol of a counterpart. -/
  symbol : String → String := id
  symbol_function : ∀ f : LinkedFunction, (function f).symbol = symbol f.symbol
  params_function : ∀ f : LinkedFunction, (function f).params = f.params
  registers_function : ∀ f : LinkedFunction, (function f).registers = f.registers
  code_function : ∀ (f : LinkedFunction) (index : Nat),
    (function f).code[index]? = f.code[index]?.map (Code.relocate position)
  function?_position : ∀ index : Nat,
    target.function? (position index) = (source.function? index).map function
  /-- A function that is missing is missed at the same position. -/
  position_of_none : ∀ index : Nat, source.function? index = none → position index = index
  agrees : sourceSetup.Agrees targetSetup
  /-- The watchdogs stop the machines at the same moment. -/
  stopsAt_iff : ∀ e : Effects, targetSetup.watchdog.StopsAt (effects e).steps ↔
    sourceSetup.watchdog.StopsAt e.steps
  tick_effects : ∀ e : Effects, (effects e).tick = effects e.tick
  print_effects : ∀ (text : String) (e : Effects), (effects e).print text = effects (e.print text)
  pass_effects : ∀ (f : LinkedFunction) (depth : Nat) (e : Effects),
    (effects e).pass targetSetup (function f) depth = effects (e.pass sourceSetup f depth)

namespace Lockstep

variable (L : Lockstep)

/-- The same call on the second machine. -/
def frame (f : Frame) : Frame := { f with function := L.function f.function }

/-- The same value, or the same trap of the counterpart. -/
def reply : Except Trap α → Except Trap α := Except.mapError (Trap.relabel L.symbol)

/-- The same attempt to go on with a call. -/
def attempt (x : Except Trap Frame) : Except Trap Frame := L.reply (x.map L.frame)

/-- The same state of the second machine. -/
def next : Next → Next
  | .go top below => .go (L.frame top) (below.map L.frame)
  | .stop reply => .stop (L.reply reply)

/-! ## One step -/

/-- A fault of a call is that of the same call on the second machine. -/
theorem malformed_frame (f : Frame) (detail : String) :
    (L.frame f).malformed detail = (f.malformed detail).relabel L.symbol :=
  congrArg (Trap.malformed · detail) (L.symbol_function f.function)

/-- Registers are read alike. -/
theorem get_frame (f : Frame) (r : Register) : (L.frame f).get r = L.reply (f.get r) := by
  have hregisters : (L.frame f).registers = f.registers := rfl
  rw [Frame.get, Frame.get, hregisters, malformed_frame]
  cases f.registers.get? r.toNat <;> rfl

/-- So are several of them. -/
theorem getAll_frame (f : Frame) (rs : List Register) :
    (L.frame f).getAll rs = L.reply (f.getAll rs) := by
  induction rs with
  | nil => rfl
  | cons r rs ih =>
    rw [Frame.getAll, Frame.getAll, ih, get_frame]
    cases f.get r with
    | error trap => rfl
    | ok value => cases f.getAll rs <;> rfl

/-- Registers are changed alike. -/
theorem set_frame (f : Frame) (r : Register) (value : Int64) :
    (L.frame f).set r value = L.attempt (f.set r value) := by
  have hregisters : (L.frame f).registers = f.registers := rfl
  rw [Frame.set, Frame.set, hregisters, malformed_frame]
  cases f.registers.set? r.toNat value <;> rfl

/-- **A call begins alike** on both machines. -/
theorem enter_eq (index : Nat) (arguments : List Int64) (result : Option Register) (depth : Nat)
    (e : Effects) :
    Machine.enter L.target L.targetSetup (L.position index) arguments result depth (L.effects e) =
      Prod.map L.attempt L.effects
        (Machine.enter L.source L.sourceSetup index arguments result depth e) := by
  cases hsource : L.source.function? index with
  | none =>
    have htarget := L.function?_position index
    rw [hsource, Option.map_none] at htarget
    rw [Machine.enter, Machine.enter, htarget, hsource, L.position_of_none index hsource]
    rfl
  | some f =>
    have htarget := L.function?_position index
    rw [hsource, Option.map_some] at htarget
    -- The depth and the number of arguments are checked before anything is traced.
    by_cases hdepth : L.sourceSetup.maxDepth ≤ depth
    · have hdepth' : L.targetSetup.maxDepth ≤ depth := L.agrees.maxDepth_eq ▸ hdepth
      rw [Machine.enter_of_le htarget hdepth', Machine.enter_of_le hsource hdepth,
        L.agrees.maxDepth_eq]
      rfl
    · have hdepth' : ¬ L.targetSetup.maxDepth ≤ depth := L.agrees.maxDepth_eq ▸ hdepth
      by_cases harity : f.params.toNat = arguments.length
      · have harity' : (L.function f).params.toNat = arguments.length :=
          (congrArg UInt32.toNat (L.params_function f)).trans harity
        have hbegin : Frame.begin (L.function f) arguments result depth =
            L.frame (.begin f arguments result depth) := by
          rw [Frame.begin, L.registers_function]
          rfl
        rw [Machine.enter_of_eq htarget hdepth' harity', Machine.enter_of_eq hsource hdepth harity,
          L.pass_effects, hbegin]
        rfl
      · have harity' : (L.function f).params.toNat ≠ arguments.length :=
          L.params_function f ▸ harity
        rw [Machine.enter_of_ne htarget hdepth' harity', Machine.enter_of_ne hsource hdepth harity,
          L.symbol_function, L.params_function]
        rfl

/-- Both machines go on alike with a call that has been begun. -/
theorem proceed_eq (below : List Frame) (x : Except Trap Frame × Effects) :
    Machine.proceed (below.map L.frame) (Prod.map L.attempt L.effects x) =
      Prod.map L.next L.effects (Machine.proceed below x) := by
  obtain ⟨_ | _, _⟩ := x <;> rfl

/-- They go on alike in the same call. -/
theorem resume_eq (below : List Frame) (e : Effects) (x : Except Trap Frame) :
    Machine.resume (below.map L.frame) (L.effects e) (L.attempt x) =
      Prod.map L.next L.effects (Machine.resume below e x) := by
  cases x <;> rfl

/-- They leave a call alike. -/
theorem leave_eq (result : Option Register) (value : Int64) (below : List Frame) (e : Effects) :
    Machine.leave result value (below.map L.frame) (L.effects e) =
      Prod.map L.next L.effects (Machine.leave result value below e) := by
  cases below with
  | nil => rfl
  | cons caller below =>
    cases result with
    | none => rfl
    | some dst => rw [List.map_cons, Machine.leave, Machine.leave, set_frame, resume_eq]

/-- **An instruction is executed alike** on both machines. -/
theorem execute_eq (code : Code) (top : Frame) (below : List Frame) (e : Effects) :
    Machine.execute L.target L.targetSetup (code.relocate L.position) (L.frame top)
        (below.map L.frame) (L.effects e) =
      Prod.map L.next L.effects
        (Machine.execute L.source L.sourceSetup code top below e) := by
  have hsymbol : (L.frame top).function.symbol = L.symbol top.function.symbol :=
    L.symbol_function top.function
  -- Positions of functions matter only to calls and trampolines, symbols only to traps.
  cases code with
  | const dst value => rw [Code.relocate, Machine.execute, Machine.execute, set_frame, resume_eq]
  | binary dst kind lhs rhs =>
    rw [Code.relocate, Machine.execute, Machine.execute, ← resume_eq, get_frame, get_frame, hsymbol]
    cases top.get lhs with
    | error trap => rfl
    | ok a =>
      cases top.get rhs with
      | error trap => rfl
      | ok b =>
        simp only [reply, Except.mapError, ok_bind]
        cases kind.eval? a b with
        | none => rfl
        | some value => exact congrArg _ (L.set_frame ..)
  | compare dst predicate lhs rhs =>
    rw [Code.relocate, Machine.execute, Machine.execute, ← resume_eq, get_frame, get_frame]
    cases top.get lhs with
    | error trap => rfl
    | ok a =>
      cases top.get rhs with
      | error trap => rfl
      | ok b => exact congrArg _ (L.set_frame ..)
  | call dst callee args =>
    rw [Code.relocate, Machine.execute, Machine.execute, getAll_frame]
    cases top.getAll args with
    | error trap => rfl
    | ok values =>
      dsimp only [reply, Except.mapError]
      rw [← proceed_eq, ← enter_eq]
      rfl
  | jump target => rfl
  | branch cond thenTarget elseTarget =>
    rw [Code.relocate, Machine.execute, Machine.execute, ← resume_eq, get_frame]
    cases top.get cond <;> rfl
  | «return» value =>
    cases value with
    | none => exact L.leave_eq ..
    | some r =>
      rw [Code.relocate, Machine.execute, Machine.execute, get_frame]
      cases top.get r with
      | error trap => rfl
      | ok value => exact L.leave_eq ..
  | print r =>
    rw [Code.relocate, Machine.execute, Machine.execute, get_frame]
    cases top.get r with
    | error trap => rfl
    | ok value =>
      have hprint := L.print_effects (toString value.toInt ++ "\n") e
      rw [Effects.print, Effects.print, ← String.append_assoc, ← String.append_assoc] at hprint
      exact Prod.ext rfl hprint
  | trap message =>
    rw [Code.relocate, Machine.execute, Machine.execute, hsymbol]
    rfl
  | nop => rfl
  | dispatch pristine targets =>
    have hparams : (L.frame top).function.params = top.function.params :=
      L.params_function top.function
    rw [Code.relocate, Machine.execute, Machine.execute, ← proceed_eq, ← enter_eq,
      L.agrees.selector_eq, Machine.choose_relocate, hparams]
    rfl

/-- **A step is made alike** on both machines. -/
theorem step_eq (top : Frame) (below : List Frame) (e : Effects) :
    Machine.step L.target L.targetSetup (L.frame top) (below.map L.frame) (L.effects e) =
      Prod.map L.next L.effects (Machine.step L.source L.sourceSetup top below e) := by
  have hsteps : (L.effects e).steps + 1 = (L.effects e.tick).steps :=
    congrArg Effects.steps (L.tick_effects e)
  by_cases hstops : L.sourceSetup.watchdog.StopsAt (e.steps + 1)
  · have hstops' : L.targetSetup.watchdog.StopsAt ((L.effects e).steps + 1) :=
      hsteps ▸ (L.stopsAt_iff e.tick).mpr hstops
    rw [Machine.step_of_stopsAt hstops', Machine.step_of_stopsAt hstops, L.tick_effects]
    rfl
  · have hstops' : ¬ L.targetSetup.watchdog.StopsAt ((L.effects e).steps + 1) :=
      fun h => hstops ((L.stopsAt_iff e.tick).mp (hsteps ▸ h))
    rw [Machine.step_of_not_stopsAt hstops', Machine.step_of_not_stopsAt hstops, L.tick_effects]
    have hcode : (L.frame top).function.code[(L.frame top).position]? =
        top.function.code[top.position]?.map (Code.relocate L.position) :=
      L.code_function top.function top.position
    rw [Machine.fetch, Machine.fetch, hcode]
    cases top.function.code[top.position]? with
    | none =>
      rw [Option.map_none, malformed_frame]
      rfl
    | some code => exact L.execute_eq code { top with position := top.position + 1 } below e.tick

/-! ## Runs -/

/-- **A run goes on alike** on both machines. -/
theorem runFrom_eq (fuel : Nat) (x : Next × Effects) :
    Machine.runFrom L.target L.targetSetup fuel (Prod.map L.next L.effects x) =
      Prod.map (Option.map L.reply) L.effects
        (Machine.runFrom L.source L.sourceSetup fuel x) := by
  -- By induction on the fuel: each step is made alike.
  induction fuel generalizing x with
  | zero => obtain ⟨_ | _, _⟩ := x <;> rfl
  | succ fuel ih =>
    obtain ⟨⟨top, below⟩ | reply, e⟩ := x
    · rw [Machine.runFrom_succ, ← ih, ← step_eq]
      exact Machine.runFrom_succ fuel (L.frame top) (below.map L.frame) (L.effects e)
    · rfl

/-- **So does a call of a function**, and a trap names the counterpart. -/
theorem call_relabel (fuel index : Nat) (arguments : List Int64) (e : Effects) :
    Machine.call L.target L.targetSetup fuel (L.position index) arguments (L.effects e) =
      Prod.map (Option.map L.reply) L.effects
        (Machine.call L.source L.sourceSetup fuel index arguments e) := by
  rw [Machine.call_eq, Machine.call_eq, ← runFrom_eq, ← proceed_eq, enter_eq]
  rfl

/-! ## Runs of functions that keep their symbols -/

/-- Then both machines reply the same. -/
theorem map_reply (hsymbol : L.symbol = id) :
    Option.map (L.reply (α := α)) = id := by
  funext outcome
  rw [reply, hsymbol, Trap.relabel_id]
  obtain _ | _ | _ := outcome <;> rfl

/-- A call of a function ends alike. -/
theorem call_eq (fuel index : Nat) (arguments : List Int64) (e : Effects)
    (hsymbol : L.symbol = id := by rfl) :
    Machine.call L.target L.targetSetup fuel (L.position index) arguments (L.effects e) =
      Prod.map id L.effects (Machine.call L.source L.sourceSetup fuel index arguments e) := by
  rw [call_relabel, L.map_reply hsymbol]

/-- So does a call of a symbol that stands at corresponding positions. -/
theorem callSymbol_eq {symbol : String}
    (h : L.target.index? symbol = (L.source.index? symbol).map L.position) (fuel : Nat)
    (arguments : List Int64) (e : Effects) (hsymbol : L.symbol = id := by rfl) :
    Machine.callSymbol L.target L.targetSetup fuel symbol arguments (L.effects e) =
      Prod.map id L.effects
        (Machine.callSymbol L.source L.sourceSetup fuel symbol arguments e) := by
  rw [Machine.callSymbol, Machine.callSymbol, h]
  cases L.source.index? symbol with
  | none => rfl
  | some index => exact L.call_eq fuel index arguments e hsymbol

end Lockstep

end MutationLab
