import Mathlib.Data.List.Basic
import Mathlib.Logic.Function.Iterate
import MutationLab.Machine.Basic
import MutationLab.Proofs.Ascending

/-! # Runs of the machine

What every run has in common, whatever the image: fuel beyond the end of a run changes nothing, so
all finished runs from one state agree (`runFrom_unique`). What it means to begin a call is said
once, in `enter_of_le`, `enter_of_ne` and `enter_of_eq`. -/

namespace MutationLab

namespace Trace

/-- The probes in a trace. -/
def probes (t : Trace) : List UInt32 := t.map Prod.fst

/-- Recording a probe changes its hit or makes one. -/
theorem record_eq_upsert (probe depth : UInt32) (t : Trace) :
    record probe depth t =
      upsert (· < ·) Prod.fst (probe, depth) (fun hit => (hit.1, min hit.2 depth)) t := by
  induction t with
  | nil => rfl
  | cons hit hits ih => rw [record, upsert, ih]

/-- Recording a probe adds it to those of a trace. -/
theorem mem_probes_record {probe depth other : UInt32} {t : Trace} :
    other ∈ probes (record probe depth t) ↔ other = probe ∨ other ∈ probes t := by
  have hkey : ∀ hit : UInt32 × UInt32, (hit.1, min hit.2 depth).1 = hit.1 := fun _ => rfl
  rw [probes, record_eq_upsert, mem_map_key_upsert hkey, probes]

end Trace

/-- What a selector picks is mapped when the targets and the pristine one are. -/
theorem getD_lookup_map (selector : Option String) (f : α → β) (pristine : α)
    (targets : List (String × α)) :
    (selector.bind fun mutant =>
        (targets.map fun target => (target.1, f target.2)).lookup mutant).getD (f pristine) =
      f ((selector.bind fun mutant => targets.lookup mutant).getD pristine) := by
  cases selector with
  | none => rfl
  | some mutant =>
    rw [Option.bind_some, Option.bind_some]
    induction targets with
    | nil => rfl
    | cons target targets ih =>
      rw [List.map_cons, List.lookup_cons, List.lookup_cons]
      split
      · rfl
      · exact ih

/-- The call of a function with its arguments in the first registers. -/
def Frame.begin (f : LinkedFunction) (arguments : List Int64) (result : Option Register)
    (depth : Nat) : Frame :=
  { function := f, registers := .ofArguments f.registers.toNat arguments, result, depth }

@[simp] theorem Frame.function_begin (f : LinkedFunction) (arguments : List Int64)
    (result : Option Register) (depth : Nat) :
    (begin f arguments result depth).function = f := rfl

@[simp] theorem Frame.result_begin (f : LinkedFunction) (arguments : List Int64)
    (result : Option Register) (depth : Nat) :
    (begin f arguments result depth).result = result := rfl

@[simp] theorem Frame.depth_begin (f : LinkedFunction) (arguments : List Int64)
    (result : Option Register) (depth : Nat) :
    (begin f arguments result depth).depth = depth := rfl

/-- The arguments of a call that has just begun are its first registers. -/
theorem Frame.take_begin {f : LinkedFunction} {arguments : List Int64} {count : Nat}
    (h : count = arguments.length) (result : Option Register) (depth : Nat) :
    (begin f arguments result depth).registers.take count = arguments := by
  rw [begin, Registers.ofArguments, Registers.take, h]
  refine List.ext_getElem (by simp) ?_
  intro index hleft hright
  simp [Array.getD, hright]

/-- What entering a function leaves behind: its probe is recorded if it has one and the run is
traced. -/
def Effects.pass (setup : Setup) (f : LinkedFunction) (depth : Nat) (e : Effects) : Effects :=
  match setup.tracing, f.probe with
  | true, some probe => { e with trace := e.trace.record probe (UInt32.ofNat depth) }
  | _, _ => e

namespace Effects

variable {setup : Setup} {f : LinkedFunction} {depth : Nat} {e : Effects}

/-- Entering a function prints nothing. -/
@[simp] theorem stdout_pass : (e.pass setup f depth).stdout = e.stdout := by
  rw [pass]
  split <;> rfl

/-- Entering a function forgets no probe. -/
theorem trace_subset_pass : e.trace.probes ⊆ (e.pass setup f depth).trace.probes := by
  intro probe hprobe
  rw [pass]
  split
  · exact Trace.mem_probes_record.mpr (.inr hprobe)
  · exact hprobe

/-- In a traced run, entering a function records its probe. -/
theorem mem_trace_pass {probe : UInt32} (htracing : setup.tracing = true)
    (hprobe : f.probe = some probe) : probe ∈ (e.pass setup f depth).trace.probes := by
  rw [pass, htracing, hprobe]
  exact Trace.mem_probes_record.mpr (.inl rfl)

end Effects

namespace Machine

variable {image : Image} {setup : Setup}

section

variable {index : Nat} {f : LinkedFunction} {arguments : List Int64} {depth : Nat}

/-- No call begins when as many as allowed are active. -/
theorem enter_of_le (h : image.function? index = some f) (hdepth : setup.maxDepth ≤ depth)
    (result : Option Register) (e : Effects) :
    enter image setup index arguments result depth e =
      (.error (.stackOverflow setup.maxDepth), e) := by
  rw [enter, h]
  dsimp only
  rw [if_pos hdepth]

/-- No call begins with a wrong number of arguments. -/
theorem enter_of_ne (h : image.function? index = some f) (hdepth : ¬ setup.maxDepth ≤ depth)
    (harity : f.params.toNat ≠ arguments.length) (result : Option Register) (e : Effects) :
    enter image setup index arguments result depth e =
      (.error (.arityMismatch f.symbol f.params arguments.length), e) := by
  rw [enter, h]
  dsimp only
  rw [if_neg hdepth, if_pos harity]

/-- **Otherwise a call begins**, at the beginning of its function. -/
theorem enter_of_eq (h : image.function? index = some f) (hdepth : ¬ setup.maxDepth ≤ depth)
    (harity : f.params.toNat = arguments.length) (result : Option Register) (e : Effects) :
    enter image setup index arguments result depth e =
      (.ok (.begin f arguments result depth), e.pass setup f depth) := by
  rw [enter, h]
  dsimp only
  rw [if_neg hdepth, if_neg (not_not.mpr harity)]
  rfl

end

/-- Without a watchdog, a step counts itself and executes the next instruction. -/
theorem step_eq {top : Frame} {code : Code} (hnever : setup.watchdog = .never)
    (hcode : top.function.code[top.position]? = some code) (below : List Frame) (e : Effects) :
    step image setup top below e =
      execute image setup code { top with position := top.position + 1 } below
        { e with steps := e.steps + 1 } := by
  rw [step, hnever, hcode]
  dsimp only
  rw [if_neg (by simp [Watchdog.isExpired])]

/-- Without a watchdog, a step behind the last instruction is a fault. -/
theorem step_eq_of_none {top : Frame} (hnever : setup.watchdog = .never)
    (hcode : top.function.code[top.position]? = none) (below : List Frame) (e : Effects) :
    step image setup top below e =
      (.stop (.error (top.malformed s!"fell off the end at {top.position}")),
        { e with steps := e.steps + 1 }) := by
  rw [step, hnever, hcode]
  dsimp only
  rw [if_neg (by simp [Watchdog.isExpired])]

/-! ## Fuel -/

/-- Run from the state behind a step. -/
def runFrom (image : Image) (setup : Setup) (fuel : Nat) :
    Next × Effects → Option (Except Trap Int64) × Effects
  | (.stop reply, e) => (some reply, e)
  | (.go top below, e) => run image setup fuel top below e

/-- A run makes a step and goes on. -/
theorem run_succ (fuel : Nat) (top : Frame) (below : List Frame) (e : Effects) :
    run image setup (fuel + 1) top below e =
      runFrom image setup fuel (step image setup top below e) := by
  rw [run]
  rcases step image setup top below e with ⟨_ | _, _⟩ <;> rfl

/-- A call from outside begins the call and goes on. -/
theorem call_eq {fuel index : Nat} {arguments : List Int64} {e : Effects} :
    call image setup fuel index arguments e =
      runFrom image setup fuel (proceed [] (enter image setup index arguments none 0 e)) := by
  rw [call]
  rcases enter image setup index arguments none 0 e with ⟨_ | _, _⟩ <;> rfl

/-- So does a call of a symbol. -/
theorem callSymbol_eq {symbol : String} {index : Nat} (h : image.index? symbol = some index)
    (fuel : Nat) (arguments : List Int64) (e : Effects) :
    callSymbol image setup fuel symbol arguments e =
      runFrom image setup fuel (proceed [] (enter image setup index arguments none 0 e)) := by
  rw [callSymbol, h]
  exact call_eq

/-- The state behind one more step; a run that is over stays as it is. -/
def advance (image : Image) (setup : Setup) : Next × Effects → Next × Effects
  | (.go top below, e) => step image setup top below e
  | (.stop reply, e) => (.stop reply, e)

/-- What every step keeps, a run keeps. -/
theorem iterate_of_step {P : Next → Prop}
    (hstep : ∀ top below e, P (.go top below) → P (step image setup top below e).1)
    {next : Next × Effects} (h : P next.1) (steps : Nat) :
    P ((advance image setup)^[steps] next).1 := by
  induction steps generalizing next with
  | zero => exact h
  | succ steps ih =>
    rw [Function.iterate_succ_apply]
    refine ih ?_
    obtain ⟨_ | _, e⟩ := next
    · exact hstep _ _ e h
    · exact h

/-- A run ends as the state says that its steps lead to. -/
theorem runFrom_eq_iterate (fuel : Nat) (next : Next × Effects) :
    runFrom image setup fuel next =
      match (advance image setup)^[fuel] next with
      | (.go _ _, e) => (none, e)
      | (.stop reply, e) => (some reply, e) := by
  induction fuel generalizing next with
  | zero => obtain ⟨_ | _, _⟩ := next <;> rfl
  | succ fuel ih =>
    rw [Function.iterate_succ_apply, ← ih]
    obtain ⟨_ | _, _⟩ := next
    · exact run_succ fuel _ _ _
    · cases fuel <;> rfl

/-- The steps of a run that ends lead to its end. -/
theorem iterate_eq_stop {fuel : Nat} {next : Next × Effects} {reply : Except Trap Int64}
    (h : (runFrom image setup fuel next).1 = some reply) :
    ((advance image setup)^[fuel] next).1 = .stop reply := by
  rw [runFrom_eq_iterate] at h
  split at h
  · exact nomatch h
  · rename_i hstate
    rw [hstate, Option.some.inj h]

/-- More fuel does not change a finished run. -/
theorem run_add {fuel : Nat} {top : Frame} {below : List Frame} {e e₁ : Effects}
    {reply : Except Trap Int64} (h : run image setup fuel top below e = (some reply, e₁))
    (more : Nat) : run image setup (fuel + more) top below e = (some reply, e₁) := by
  induction fuel generalizing top below e with
  | zero => exact nomatch (Prod.mk.inj h).1
  | succ fuel ih =>
    rw [run_succ] at h
    rw [Nat.succ_add, run_succ]
    rcases hstep : step image setup top below e with ⟨_ | _, _⟩
    · rw [hstep] at h
      exact ih h
    · -- The run is over, and what fuel is left does not matter.
      rw [hstep] at h
      exact h

/-- **Finished runs agree**, however much fuel they had. -/
theorem runFrom_unique {fuel more : Nat} {next : Next × Effects} {e₁ e₂ : Effects}
    {reply other : Except Trap Int64} (h : runFrom image setup fuel next = (some reply, e₁))
    (h' : runFrom image setup more next = (some other, e₂)) : reply = other ∧ e₁ = e₂ := by
  have hsame : (some reply, e₁) = (some other, e₂) := by
    obtain ⟨_ | _, _⟩ := next
    · -- Both runs are the run with the fuel of both.
      rw [← run_add h more, Nat.add_comm, ← run_add h' fuel]
    · exact h.symm.trans h'
  rw [Prod.mk.injEq, Option.some.injEq] at hsame
  exact hsame

/-- A call of a symbol ends with a reply, and so much has been printed then. -/
def Ends (image : Image) (setup : Setup) (symbol : String) (arguments : List Int64) (e : Effects)
    (reply : Except Trap Int64) (stdout : String) : Prop :=
  ∃ fuel e', callSymbol image setup fuel symbol arguments e = (some reply, e') ∧ e'.stdout = stdout

/-- A call of a symbol ends in one way only. -/
theorem Ends.unique {symbol : String} {arguments : List Int64} {e : Effects}
    {reply other : Except Trap Int64} {stdout text : String}
    (h : Ends image setup symbol arguments e reply stdout)
    (h' : Ends image setup symbol arguments e other text) : reply = other ∧ stdout = text := by
  obtain ⟨fuel, e₁, hcall, rfl⟩ := h
  obtain ⟨more, e₂, hcall', rfl⟩ := h'
  cases hindex : image.index? symbol with
  | none =>
    rw [callSymbol, hindex] at hcall hcall'
    have hsame := hcall.symm.trans hcall'
    rw [Prod.mk.injEq, Option.some.injEq] at hsame
    exact ⟨hsame.1, congrArg Effects.stdout hsame.2⟩
  | some index =>
    rw [callSymbol_eq hindex] at hcall hcall'
    obtain ⟨hreply, heffects⟩ := runFrom_unique hcall hcall'
    exact ⟨hreply, congrArg Effects.stdout heffects⟩

/-! ## What goes on with a call leaves nothing behind -/

/-- Going on with a call that was begun leaves nothing behind. -/
@[simp] theorem proceed_snd (below : List Frame) (x : Except Trap Frame × Effects) :
    (proceed below x).2 = x.2 := by
  obtain ⟨_ | _, _⟩ := x <;> rfl

/-- Going on in the same call leaves nothing behind. -/
@[simp] theorem resume_snd (below : List Frame) (e : Effects) (x : Except Trap Frame) :
    (resume below e x).2 = e := by
  cases x <;> rfl

/-- Leaving a call leaves nothing behind. -/
@[simp] theorem leave_snd (result : Option Register) (value : Int64) (below : List Frame)
    (e : Effects) : (leave result value below e).2 = e := by
  cases below with
  | nil => rfl
  | cons caller below =>
    cases result with
    | none => rfl
    | some dst => exact resume_snd below e _

end Machine

end MutationLab
