import MutationLab.Image
import MutationLab.Machine.Arithmetic
import MutationLab.Machine.Registers
import MutationLab.Trace

/-! # The machine

A machine runs the functions of an image one instruction at a time on a stack of calls.
`Machine.step` is a total function, and `Machine.run` repeats it as often as its fuel
lasts: more fuel never changes a finished run. What a run leaves behind - steps, output
and trace - is kept in `Effects` and outlives a call. -/

namespace MutationLab

/-- A fault that ends a run. -/
inductive Trap where
  /-- A signed quotient or remainder by zero. -/
  | divisionByZero (function : String)
  /-- A trap instruction. -/
  | explicit (function message : String)
  /-- More calls are active than allowed. -/
  | stackOverflow (limit : Nat)
  /-- The watchdog has expired. -/
  | timeout
  /-- A call from outside with a wrong number of arguments. -/
  | arityMismatch (symbol : String) (expected : UInt32) (given : Nat)
  /-- No function has the symbol. -/
  | undefinedSymbol (symbol : String)
  /-- The code does something that compiled code never does. -/
  | malformed (function detail : String)
  deriving DecidableEq, Repr

/-- The text of a trap. -/
def Trap.message : Trap → String
  | divisionByZero f => s!"division by zero in `{f}`"
  | explicit f message => s!"trap in `{f}`: {message}"
  | stackOverflow limit => s!"stack overflow: call depth exceeded {limit}"
  | timeout => "execution cancelled by watchdog"
  | arityMismatch symbol expected given =>
      s!"`{symbol}` takes {expected.toNat} arguments, got {given}"
  | undefinedSymbol symbol => s!"undefined symbol `{symbol}`"
  | malformed f detail => s!"malformed code in `{f}`: {detail}"

/-- A limit on a run, in steps of the machine. -/
inductive Watchdog where
  /-- No limit. -/
  | never
  /-- Expired once the machine has made so many steps. -/
  | after (steps : Nat)
  deriving DecidableEq, Repr

/-- Whether the watchdog has expired when a machine has made `steps` steps. -/
def Watchdog.isExpired : Watchdog → (steps : Nat) → Bool
  | never, _ => false
  | after limit, steps => limit ≤ steps

/-- The watchdog is asked at every step whose number is a multiple of this. -/
def Watchdog.interval : Nat := 1024

/-- What is chosen for a run. -/
structure Setup where
  /-- The mutant that is active in every trampoline. -/
  selector : Option String := none
  /-- How many calls may be active at once. -/
  maxDepth : Nat := 512
  watchdog : Watchdog := .never
  /-- Whether probes are recorded. -/
  tracing : Bool := false
  deriving DecidableEq, Repr

/-- What runs have left behind. -/
structure Effects where
  steps : Nat := 0
  stdout : String := ""
  trace : Trace := []
  deriving DecidableEq, Repr

/-- An active call. -/
structure Frame where
  function : LinkedFunction
  registers : Registers
  /-- The position of the next instruction. -/
  position : Nat := 0
  /-- The register of the caller that receives the value. -/
  result : Option Register
  /-- The number of calls below this one. -/
  depth : Nat
  deriving DecidableEq, Repr

namespace Frame

/-- A fault of the code of this call. -/
def malformed (f : Frame) (detail : String) : Trap := .malformed f.function.symbol detail

/-- The content of a register. -/
def get (f : Frame) (r : Register) : Except Trap Int64 :=
  match f.registers.get? r.toNat with
  | some value => .ok value
  | none => .error (f.malformed s!"register r{r.toNat} out of range")

/-- The call with a register changed. -/
def set (f : Frame) (r : Register) (value : Int64) : Except Trap Frame :=
  match f.registers.set? r.toNat value with
  | some registers => .ok { f with registers }
  | none => .error (f.malformed s!"register r{r.toNat} out of range")

/-- The contents of several registers. -/
def getAll (f : Frame) : List Register → Except Trap (List Int64)
  | [] => .ok []
  | r :: rs => do
      let value ← f.get r
      let values ← f.getAll rs
      return value :: values

end Frame

/-- The state behind a step. -/
inductive Next where
  /-- The run goes on with these calls, the innermost first. -/
  | go (top : Frame) (below : List Frame)
  /-- The run is over. -/
  | stop (result : Except Trap Int64)

namespace Machine

/-- Begin a call of the function at a position, on top of `depth` others. -/
def enter (image : Image) (setup : Setup) (index : Nat) (arguments : List Int64)
    (result : Option Register) (depth : Nat) (e : Effects) : Except Trap Frame × Effects :=
  match image.function? index with
  | none => (.error (.undefinedSymbol s!"#{index}"), e)
  | some f =>
      if setup.maxDepth ≤ depth then (.error (.stackOverflow setup.maxDepth), e)
      else if f.params.toNat ≠ arguments.length then
        (.error (.arityMismatch f.symbol f.params arguments.length), e)
      else
        let e := match setup.tracing, f.probe with
          | true, some probe => { e with trace := e.trace.record probe (UInt32.ofNat depth) }
          | _, _ => e
        (.ok { function := f, registers := .ofArguments f.registers.toNat arguments,
               result, depth }, e)

/-- The body that a trampoline goes on in. -/
def choose (selector : Option String) (pristine : Nat) (targets : List (String × Nat)) : Nat :=
  (selector.bind fun mutant => targets.lookup mutant).getD pristine

/-- Go on with a call that has been begun, or stop. -/
def proceed (below : List Frame) : Except Trap Frame × Effects → Next × Effects
  | (.ok top, e) => (.go top below, e)
  | (.error trap, e) => (.stop (.error trap), e)

/-- Go on in the same call, or stop. -/
def resume (below : List Frame) (e : Effects) : Except Trap Frame → Next × Effects
  | .ok top => (.go top below, e)
  | .error trap => (.stop (.error trap), e)

/-- Leave a call with a value. -/
def leave (result : Option Register) (value : Int64) (below : List Frame) (e : Effects) :
    Next × Effects :=
  match below with
  | [] => (.stop (.ok value), e)
  | caller :: below =>
      match result with
      | none => (.go caller below, e)
      | some dst => resume below e (caller.set dst value)

/-- Execute an instruction in a call that already points behind it. -/
def execute (image : Image) (setup : Setup) (code : Code) (top : Frame) (below : List Frame)
    (e : Effects) : Next × Effects :=
  match code with
  | .const dst value => resume below e (top.set dst value)
  | .binary dst kind lhs rhs => resume below e do
      let a ← top.get lhs
      let b ← top.get rhs
      match kind.eval? a b with
      | some value => top.set dst value
      | none => .error (.divisionByZero top.function.symbol)
  | .compare dst predicate lhs rhs => resume below e do
      let a ← top.get lhs
      let b ← top.get rhs
      top.set dst (predicate.value a b)
  | .call dst callee args =>
      match top.getAll args with
      | .error trap => (.stop (.error trap), e)
      | .ok values =>
          proceed (top :: below) (enter image setup callee values dst (top.depth + 1) e)
  | .jump target => (.go { top with position := target } below, e)
  | .branch cond thenTarget elseTarget => resume below e do
      let value ← top.get cond
      return { top with position := if value ≠ 0 then thenTarget else elseTarget }
  | .return none => leave top.result 0 below e
  | .return (some r) =>
      match top.get r with
      | .error trap => (.stop (.error trap), e)
      | .ok value => leave top.result value below e
  | .print r =>
      match top.get r with
      | .error trap => (.stop (.error trap), e)
      | .ok value => (.go top below, { e with stdout := e.stdout ++ toString value.toInt ++ "\n" })
  | .trap message => (.stop (.error (.explicit top.function.symbol message)), e)
  | .nop => (.go top below, e)
  | .dispatch pristine targets =>
      let arguments := top.registers.take top.function.params.toNat
      proceed below
        (enter image setup (choose setup.selector pristine targets) arguments top.result
          top.depth e)

/-- One step: count it, ask the watchdog, and execute the next instruction. -/
def step (image : Image) (setup : Setup) (top : Frame) (below : List Frame) (e : Effects) :
    Next × Effects :=
  let e := { e with steps := e.steps + 1 }
  if e.steps % Watchdog.interval = 0 ∧ setup.watchdog.isExpired e.steps then
    (.stop (.error .timeout), e)
  else
    match top.function.code[top.position]? with
    | none => (.stop (.error (top.malformed s!"fell off the end at {top.position}")), e)
    | some code => execute image setup code { top with position := top.position + 1 } below e

/-- Step until the run is over or the fuel is used up; then there is no result. -/
def run (image : Image) (setup : Setup) :
    (fuel : Nat) → Frame → List Frame → Effects → Option (Except Trap Int64) × Effects
  | 0, _, _, e => (none, e)
  | fuel + 1, top, below, e =>
      match step image setup top below e with
      | (.stop result, e) => (some result, e)
      | (.go top below, e) => run image setup fuel top below e

/-- Call the function at a position. Its call has depth zero. -/
def call (image : Image) (setup : Setup) (fuel : Nat) (index : Nat) (arguments : List Int64)
    (e : Effects) : Option (Except Trap Int64) × Effects :=
  match enter image setup index arguments none 0 e with
  | (.error trap, e) => (some (.error trap), e)
  | (.ok top, e) => run image setup fuel top [] e

/-- Call a function by its symbol. -/
def callSymbol (image : Image) (setup : Setup) (fuel : Nat) (symbol : String)
    (arguments : List Int64) (e : Effects) : Option (Except Trap Int64) × Effects :=
  match image.index? symbol with
  | none => (some (.error (.undefinedSymbol symbol)), e)
  | some index => call image setup fuel index arguments e

/-- Fuel for a run under a watchdog: enough to reach the step at which it stops the run.
Without a limit it is more than any computer can use up. -/
def fuelFor : Watchdog → Nat
  | .never => Nat.pow 2 60
  | .after steps => steps + 2 * Watchdog.interval

end Machine

end MutationLab
