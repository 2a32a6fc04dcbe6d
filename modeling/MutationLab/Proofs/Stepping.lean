import MutationLab.Proofs.Running

/-! # What one step does

A step counts itself, and then the watchdog stops the run (`Machine.step_of_stopsAt`) or the next
instruction is fetched and executed (`Machine.step_of_not_stopsAt`). Of an instruction no more has
to be known than this: it enters a function, or it prints a text and goes on, and nothing but the
selector and the active calls decides which (`Machine.fetch_cases`). Whatever is said later about
all instructions alike is proved from these facts.

A run makes one step for each unit of fuel until it is over, takes back nothing that it has printed
and forgets no probe (`Machine.exists_adds_runFrom`). -/

namespace MutationLab

namespace Effects

/-- One more step is made. -/
def tick (e : Effects) : Effects := { e with steps := e.steps + 1 }

/-- A text is printed. -/
def print (text : String) (e : Effects) : Effects := { e with stdout := e.stdout ++ text }

/-- Printing nothing changes nothing. -/
@[simp] theorem print_empty (e : Effects) : e.print "" = e := by
  rw [print, String.append_empty]

/-- So many steps are made between what was left behind earlier and what is left behind later; what
was printed is still there, and no probe is forgotten. -/
structure Adds (earlier : Effects) (count : Nat) (later : Effects) : Prop where
  steps_eq : later.steps = earlier.steps + count
  stdout_eq : ∃ text, later.stdout = earlier.stdout ++ text
  probes_subset : earlier.trace.probes ⊆ later.trace.probes

/-- What leaves the trace alone adds steps and a text. -/
theorem Adds.of_trace_eq {earlier later : Effects} {count : Nat} {text : String}
    (hsteps : later.steps = earlier.steps + count) (hstdout : later.stdout = earlier.stdout ++ text)
    (htrace : later.trace = earlier.trace) : earlier.Adds count later :=
  ⟨hsteps, ⟨text, hstdout⟩, htrace ▸ List.Subset.refl _⟩

theorem Adds.refl (e : Effects) : e.Adds 0 e :=
  .of_trace_eq rfl String.append_empty.symm rfl

theorem Adds.trans {a b c : Effects} {count more : Nat} (h : a.Adds count b) (h' : b.Adds more c) :
    a.Adds (count + more) c := by
  obtain ⟨text, htext⟩ := h.stdout_eq
  obtain ⟨rest, hrest⟩ := h'.stdout_eq
  refine ⟨?_, ⟨text ++ rest, ?_⟩, List.Subset.trans h.probes_subset h'.probes_subset⟩
  · rw [h'.steps_eq, h.steps_eq, Nat.add_assoc]
  · rw [hrest, htext, String.append_assoc]

theorem adds_tick (e : Effects) : e.Adds 1 e.tick :=
  .of_trace_eq rfl String.append_empty.symm rfl

theorem adds_print (text : String) (e : Effects) : e.Adds 0 (e.print text) :=
  .of_trace_eq rfl rfl rfl

/-- Entering a function takes no step and prints nothing. -/
theorem adds_pass (setup : Setup) (f : LinkedFunction) (depth : Nat) (e : Effects) :
    e.Adds 0 (e.pass setup f depth) := by
  refine ⟨?_, ⟨"", ?_⟩, trace_subset_pass⟩
  · rw [pass]
    split <;> rfl
  · rw [stdout_pass, String.append_empty]

end Effects

/-- A watchdog stops a run at a step: it is asked there, and it has expired. -/
def Watchdog.StopsAt (w : Watchdog) (step : Nat) : Prop :=
  step % interval = 0 ∧ w.isExpired step = true

/-- Without a limit no run is stopped. -/
theorem Watchdog.not_stopsAt_never (step : Nat) : ¬ never.StopsAt step :=
  fun h => Bool.false_ne_true h.2

namespace Machine

variable {image : Image} {setup : Setup}

/-! ## Steps and instructions -/

/-- Execute the next instruction of a call; behind the last one there is none. -/
def fetch (image : Image) (setup : Setup) (top : Frame) (below : List Frame) (e : Effects) :
    Next × Effects :=
  match top.function.code[top.position]? with
  | none => (.stop (.error (top.malformed s!"fell off the end at {top.position}")), e)
  | some code => execute image setup code { top with position := top.position + 1 } below e

section

variable {top : Frame} {below : List Frame} {e : Effects}

/-- The watchdog stops a run before the instruction. -/
theorem step_of_stopsAt (h : setup.watchdog.StopsAt (e.steps + 1)) :
    step image setup top below e = (.stop (.error .timeout), e.tick) := by
  rw [step]
  exact if_pos h

/-- Where it does not, the instruction is executed. -/
theorem step_of_not_stopsAt (h : ¬ setup.watchdog.StopsAt (e.steps + 1)) :
    step image setup top below e = fetch image setup top below e.tick := by
  rw [step]
  exact if_neg h

end

/-- What goes on in the same call leaves nothing behind. -/
theorem resume_eq (below : List Frame) (x : Except Trap Frame) (e : Effects) :
    resume below e x = ((resume below {} x).1, e) := by
  cases x <;> rfl

/-- So does what leaves a call. -/
theorem leave_eq (result : Option Register) (value : Int64) (below : List Frame) (e : Effects) :
    leave result value below e = ((leave result value below {}).1, e) := by
  cases below with
  | nil => rfl
  | cons caller below =>
    cases result with
    | none => rfl
    | some dst => exact resume_eq below _ e

/-- **What an instruction does.** It enters a function, or it prints a text and the run goes on or
ends; neither the image nor what has been left behind has a part in this. -/
theorem execute_cases (selector : Option String) (code : Code) (top : Frame) (below : List Frame) :
    (∃ index arguments result depth callers, ∀ image setup e, setup.selector = selector →
      execute image setup code top below e =
        proceed callers (enter image setup index arguments result depth e)) ∨
    ∃ next text, ∀ image setup e, setup.selector = selector →
      execute image setup code top below e = (next, e.print text) := by
  -- All instructions but one that go on print nothing.
  have hquiet : ∀ next, (∀ image setup e, execute image setup code top below e = (next, e)) →
      ∃ next text, ∀ image setup e, setup.selector = selector →
        execute image setup code top below e = (next, e.print text) := by
    intro next h
    refine ⟨next, "", fun image setup e _ => ?_⟩
    rw [h, Effects.print_empty]
  cases code with
  | const dst value => exact .inr (hquiet _ fun _ _ _ => resume_eq ..)
  | binary dst kind lhs rhs => exact .inr (hquiet _ fun _ _ _ => resume_eq ..)
  | compare dst predicate lhs rhs => exact .inr (hquiet _ fun _ _ _ => resume_eq ..)
  | call dst callee args =>
    cases hvalues : top.getAll args with
    | error trap =>
      refine .inr (hquiet (.stop (.error trap)) fun image setup e => ?_)
      rw [execute, hvalues]
    | ok values =>
      refine .inl ⟨callee, values, dst, top.depth + 1, top :: below, fun image setup e _ => ?_⟩
      rw [execute, hvalues]
  | jump target => exact .inr (hquiet _ fun _ _ _ => rfl)
  | branch cond thenTarget elseTarget => exact .inr (hquiet _ fun _ _ _ => resume_eq ..)
  | «return» value =>
    cases value with
    | none => exact .inr (hquiet _ fun _ _ _ => leave_eq ..)
    | some r =>
      cases hvalue : top.get r with
      | error trap =>
        refine .inr (hquiet (.stop (.error trap)) fun image setup e => ?_)
        rw [execute, hvalue]
      | ok value =>
        refine .inr (hquiet (leave top.result value below {}).1 fun image setup e => ?_)
        rw [execute, hvalue]
        exact leave_eq ..
  | print r =>
    cases hvalue : top.get r with
    | error trap =>
      refine .inr (hquiet (.stop (.error trap)) fun image setup e => ?_)
      rw [execute, hvalue]
    | ok value =>
      refine .inr ⟨.go top below, toString value.toInt ++ "\n", fun image setup e _ => ?_⟩
      rw [execute, hvalue, Effects.print, ← String.append_assoc]
  | trap message => exact .inr (hquiet _ fun _ _ _ => rfl)
  | nop => exact .inr (hquiet _ fun _ _ _ => rfl)
  | dispatch pristine targets =>
    refine .inl ⟨choose selector pristine targets, top.registers.take top.function.params.toNat,
      top.result, top.depth, below, fun image setup e hselector => ?_⟩
    rw [execute, hselector]

/-- **What a step does** that the watchdog does not stop: the same. -/
theorem fetch_cases (selector : Option String) (top : Frame) (below : List Frame) :
    (∃ index arguments result depth callers, ∀ image setup e, setup.selector = selector →
      fetch image setup top below e =
        proceed callers (enter image setup index arguments result depth e)) ∨
    ∃ next text, ∀ image setup e, setup.selector = selector →
      fetch image setup top below e = (next, e.print text) := by
  cases hcode : top.function.code[top.position]? with
  | none =>
    refine .inr ⟨.stop (.error (top.malformed s!"fell off the end at {top.position}")), "",
      fun image setup e _ => ?_⟩
    rw [fetch, hcode, Effects.print_empty]
  | some code =>
    simp only [fetch, hcode]
    exact execute_cases selector code _ below

/-! ## Steps are counted, output and probes are kept -/

/-- Beginning a call takes no step. -/
theorem adds_enter (image : Image) (setup : Setup) (index : Nat) (arguments : List Int64)
    (result : Option Register) (depth : Nat) (e : Effects) :
    e.Adds 0 (enter image setup index arguments result depth e).2 := by
  cases hfunction : image.function? index with
  | none =>
    rw [enter, hfunction]
    exact .refl e
  | some f =>
    by_cases hdepth : setup.maxDepth ≤ depth
    · rw [enter_of_le hfunction hdepth]
      exact .refl e
    · by_cases harity : f.params.toNat = arguments.length
      · rw [enter_of_eq hfunction hdepth harity]
        exact Effects.adds_pass setup f depth e
      · rw [enter_of_ne hfunction hdepth harity]
        exact .refl e

/-- Executing an instruction takes no step of its own. -/
theorem adds_fetch (image : Image) (setup : Setup) (top : Frame) (below : List Frame)
    (e : Effects) :
    e.Adds 0 (fetch image setup top below e).2 := by
  obtain ⟨index, arguments, result, depth, callers, henter⟩ | ⟨next, text, hprint⟩ :=
    fetch_cases setup.selector top below
  · rw [henter image setup e rfl, proceed_snd]
    exact adds_enter image setup index arguments result depth e
  · rw [hprint image setup e rfl]
    exact Effects.adds_print text e

/-- **A step counts itself**, whether the watchdog stops it or not. -/
theorem adds_step (image : Image) (setup : Setup) (top : Frame) (below : List Frame)
    (e : Effects) :
    e.Adds 1 (step image setup top below e).2 := by
  by_cases hstops : setup.watchdog.StopsAt (e.steps + 1)
  · rw [step_of_stopsAt hstops]
    exact e.adds_tick
  · rw [step_of_not_stopsAt hstops]
    exact e.adds_tick.trans (adds_fetch image setup top below e.tick)

/-- A run with fuel left makes a step and goes on. -/
theorem runFrom_succ (fuel : Nat) (top : Frame) (below : List Frame) (e : Effects) :
    runFrom image setup (fuel + 1) (.go top below, e) =
      runFrom image setup fuel (step image setup top below e) :=
  run_succ fuel top below e

/-- More fuel does not change a run that is over. -/
theorem runFrom_of_le {fuel more : Nat} {next : Next × Effects} {reply : Except Trap Int64}
    {e : Effects} (h : runFrom image setup fuel next = (some reply, e)) (hle : fuel ≤ more) :
    runFrom image setup more next = (some reply, e) := by
  obtain ⟨rest, rfl⟩ := Nat.exists_eq_add_of_le hle
  obtain ⟨_ | _, _⟩ := next
  · exact run_add h rest
  · exact h

/-- Nor does it change such a call. -/
theorem call_of_le {fuel more index : Nat} {arguments : List Int64} {reply : Except Trap Int64}
    {e e' : Effects} (h : call image setup fuel index arguments e = (some reply, e'))
    (hle : fuel ≤ more) : call image setup more index arguments e = (some reply, e') := by
  rw [call_eq] at h ⊢
  exact runFrom_of_le h hle

/-- **A run makes a step for each unit of fuel** until it is over, and as much fuel as it makes
steps is enough. -/
theorem exists_adds_runFrom (image : Image) (setup : Setup) (fuel : Nat) (next : Next × Effects) :
    ∃ count ≤ fuel, next.2.Adds count (runFrom image setup fuel next).2 ∧
      ((runFrom image setup fuel next).1 = none → count = fuel) ∧
      runFrom image setup count next = runFrom image setup fuel next := by
  induction fuel generalizing next with
  | zero =>
    refine ⟨0, Nat.le_refl 0, ?_, fun _ => rfl, rfl⟩
    obtain ⟨_ | _, e⟩ := next <;> exact .refl e
  | succ fuel ih =>
    obtain ⟨⟨top, below⟩ | reply, e⟩ := next
    · obtain ⟨count, hle, hadds, hnone, henough⟩ := ih (step image setup top below e)
      rw [runFrom_succ]
      refine ⟨count + 1, Nat.succ_le_succ hle, ?_, fun h => congrArg (· + 1) (hnone h), ?_⟩
      · rw [Nat.add_comm]
        exact (adds_step image setup top below e).trans hadds
      · rw [runFrom_succ, henough]
    · exact ⟨0, Nat.zero_le _, .refl e, nofun, rfl⟩

/-- **A run forgets no probe** of the state that it starts from. -/
theorem trace_runFrom {fuel : Nat} {next : Next × Effects} {reply : Option (Except Trap Int64)}
    {e : Effects} (h : runFrom image setup fuel next = (reply, e)) :
    next.2.trace.probes ⊆ e.trace.probes := by
  obtain ⟨count, -, hadds, -, -⟩ := exists_adds_runFrom image setup fuel next
  rw [h] at hadds
  exact hadds.probes_subset

end Machine

end MutationLab
