import MutationLab.Proofs.Stepping

/-! # Watchdogs

A watchdog is asked at every step whose number is a multiple of 1024, and nowhere else. Up to the
first of these steps at which it has expired, a run is the run without a watchdog
(`Machine.runFrom_unwatched`); there it stops. So a watchdog that has expired already lets a run
make less than 1024 steps more, whatever code it runs into (`Machine.expired_watchdog_stops`). -/

namespace MutationLab

namespace Example

/-- A function that jumps to itself for ever. -/
def spinning : Image where
  functions := #[
    { symbol := "spin", params := 0, registers := 0, probe := none, code := #[.jump 0] }]

end Example

/-- How many steps a machine makes until the watchdog is asked again, that one included. -/
def Effects.untilAsked (e : Effects) : Nat := Watchdog.interval - e.steps % Watchdog.interval

namespace Effects

variable {e : Effects}

/-- It takes a step at least. -/
theorem untilAsked_pos (e : Effects) : 0 < e.untilAsked :=
  Nat.sub_pos_of_lt (Nat.mod_lt _ (by decide))

/-- The watchdog is asked then. -/
theorem mod_untilAsked (e : Effects) : (e.steps + e.untilAsked) % Watchdog.interval = 0 := by
  rw [untilAsked, Watchdog.interval]
  omega

/-- It is not asked before. -/
theorem mod_ne_zero (e : Effects) {step : Nat} (hlt : e.steps < step)
    (hbefore : step < e.steps + e.untilAsked) : step % Watchdog.interval ≠ 0 := by
  rw [untilAsked, Watchdog.interval] at hbefore
  rw [Watchdog.interval]
  omega

end Effects

/-- The same choices without a limit. -/
def Setup.unwatched (s : Setup) : Setup := { s with watchdog := .never }

/-- What has expired stays so. -/
theorem Watchdog.isExpired_mono {w : Watchdog} {step later : Nat} (h : w.isExpired step = true)
    (hle : step ≤ later) : w.isExpired later = true := by
  cases w with
  | never => exact h
  | after limit =>
    rw [isExpired, decide_eq_true_eq] at h ⊢
    exact h.trans hle

namespace Machine

variable {image : Image} {setup : Setup}

/-- Beginning a call has nothing to do with the watchdog. -/
theorem enter_unwatched (index : Nat) (arguments : List Int64) (result : Option Register)
    (depth : Nat) (e : Effects) :
    enter image setup.unwatched index arguments result depth e =
      enter image setup index arguments result depth e := rfl

/-- Neither has executing an instruction. -/
theorem fetch_unwatched (top : Frame) (below : List Frame) (e : Effects) :
    fetch image setup.unwatched top below e = fetch image setup top below e := by
  obtain ⟨index, arguments, result, depth, callers, henter⟩ | ⟨next, text, hprint⟩ :=
    fetch_cases setup.selector top below
  · rw [henter image setup.unwatched e rfl, henter image setup e rfl, enter_unwatched]
  · rw [hprint image setup.unwatched e rfl, hprint image setup e rfl]

/-- A step that the watchdog does not stop is that without a watchdog. -/
theorem step_unwatched {e : Effects} (h : ¬ setup.watchdog.StopsAt (e.steps + 1)) (top : Frame)
    (below : List Frame) :
    step image setup.unwatched top below e = step image setup top below e := by
  have hnever : ¬ setup.unwatched.watchdog.StopsAt (e.steps + 1) := Watchdog.not_stopsAt_never _
  rw [step_of_not_stopsAt h, step_of_not_stopsAt hnever, fetch_unwatched]

/-- **A run that the watchdog does not stop** is the run without a watchdog. -/
theorem runFrom_unwatched (fuel : Nat) {next : Next × Effects}
    (h : ∀ step, next.2.steps < step →
      step ≤ (runFrom image setup.unwatched fuel next).2.steps → ¬ setup.watchdog.StopsAt step) :
    runFrom image setup.unwatched fuel next = runFrom image setup fuel next := by
  induction fuel generalizing next with
  | zero => obtain ⟨_ | _, _⟩ := next <;> rfl
  | succ fuel ih =>
    obtain ⟨⟨top, below⟩ | reply, e⟩ := next
    · rw [runFrom_succ] at h ⊢
      rw [runFrom_succ]
      have hstep := (adds_step image setup.unwatched top below e).steps_eq
      obtain ⟨count, -, hrest, -⟩ := exists_adds_runFrom image setup.unwatched fuel
        (step image setup.unwatched top below e)
      have hsteps := hrest.steps_eq
      -- The next step is one of those at which the watchdog does not stop the run.
      have hnext : ¬ setup.watchdog.StopsAt (e.steps + 1) :=
        h (e.steps + 1) (Nat.lt_succ_self _) (by omega)
      rw [← step_unwatched hnext]
      refine ih fun step hlt hle => h step ?_ hle
      show e.steps < step
      omega
    · rfl

/-- The step that follows a run which is not over. -/
theorem exists_runFrom_succ {fuel : Nat} {next : Next × Effects}
    (h : (runFrom image setup fuel next).1 = none) :
    ∃ top below, runFrom image setup (fuel + 1) next =
      runFrom image setup 0 (step image setup top below (runFrom image setup fuel next).2) := by
  induction fuel generalizing next with
  | zero =>
    obtain ⟨⟨top, below⟩ | reply, e⟩ := next
    · exact ⟨top, below, runFrom_succ 0 top below e⟩
    · exact nomatch h
  | succ fuel ih =>
    obtain ⟨⟨top, below⟩ | reply, e⟩ := next
    · rw [runFrom_succ] at h
      rw [runFrom_succ, runFrom_succ]
      exact ih h
    · exact nomatch h

/-- A run that is not over with some fuel makes more steps than that until it ends. -/
theorem lt_steps_of_goes {fuel more : Nat} {next : Next × Effects} {reply : Except Trap Int64}
    {e : Effects} (hgoes : (runFrom image setup fuel next).1 = none)
    (hends : runFrom image setup more next = (some reply, e)) : next.2.steps + fuel < e.steps := by
  obtain ⟨count, -, hadds, -, henough⟩ := exists_adds_runFrom image setup more next
  rw [hends] at hadds henough
  have hsteps : e.steps = next.2.steps + count := hadds.steps_eq
  by_contra hle
  -- Then the fuel would have been enough.
  have hover := runFrom_of_le henough (show count ≤ fuel by omega)
  rw [hover] at hgoes
  exact nomatch hgoes

/-- No watchdog is asked before it is asked next. -/
theorem runFrom_untilAsked (image : Image) (setup : Setup) (next : Next × Effects) :
    runFrom image setup.unwatched (next.2.untilAsked - 1) next =
      runFrom image setup (next.2.untilAsked - 1) next := by
  obtain ⟨count, hle, hadds, -, -⟩ := exists_adds_runFrom image setup.unwatched
    (next.2.untilAsked - 1) next
  have hsteps := hadds.steps_eq
  have hpos := next.2.untilAsked_pos
  refine runFrom_unwatched _ fun step hlt hstep hstops => ?_
  exact next.2.mod_ne_zero hlt (by omega) hstops.1

/-- **A run under a watchdog that has expired** is over with the step at which the watchdog is asked
next. It has ended as the run without a watchdog, with less steps; or no run without a watchdog ends
so early, and it is stopped at this step, behind what the run without a watchdog did before. -/
theorem runFrom_expired (image : Image) {next : Next × Effects}
    (hexpired : setup.watchdog.isExpired next.2.steps = true) :
    (∃ reply e, runFrom image setup.unwatched (next.2.untilAsked - 1) next = (some reply, e) ∧
        e.steps < next.2.steps + next.2.untilAsked ∧
        runFrom image setup next.2.untilAsked next = (some reply, e)) ∨
      (∀ fuel reply e, runFrom image setup.unwatched fuel next = (some reply, e) →
          next.2.steps + next.2.untilAsked ≤ e.steps) ∧
        runFrom image setup next.2.untilAsked next = (some (.error .timeout),
          { (runFrom image setup.unwatched (next.2.untilAsked - 1) next).2 with
            steps := next.2.steps + next.2.untilAsked }) := by
  have hpos : 0 < next.2.untilAsked := next.2.untilAsked_pos
  obtain ⟨count, hle, hadds, hnone, -⟩ := exists_adds_runFrom image setup.unwatched
    (next.2.untilAsked - 1) next
  have hsteps := hadds.steps_eq
  have hsame := runFrom_untilAsked image setup next
  rcases hrun : runFrom image setup.unwatched (next.2.untilAsked - 1) next with ⟨_ | reply, e⟩
  · -- The run goes on, so its next step is the one at which the watchdog is asked.
    have hgoes : (runFrom image setup.unwatched (next.2.untilAsked - 1) next).1 = none := by
      rw [hrun]
    rw [hrun] at hsteps hnone
    obtain rfl := hnone rfl
    have hlast : e.steps + 1 = next.2.steps + next.2.untilAsked := by
      dsimp only at hsteps
      omega
    refine .inr ⟨fun fuel reply e' hends => ?_, ?_⟩
    · have hlt := lt_steps_of_goes hgoes hends
      omega
    · obtain ⟨top, below, hnext⟩ := exists_runFrom_succ (hsame ▸ hgoes)
      have hstops : setup.watchdog.StopsAt (e.steps + 1) := by
        rw [hlast]
        exact ⟨next.2.mod_untilAsked, Watchdog.isExpired_mono hexpired (Nat.le_add_right _ _)⟩
      rw [Nat.sub_add_cancel hpos, ← hsame, hrun, step_of_stopsAt hstops] at hnext
      rw [hnext, ← hlast]
      rfl
  · refine .inl ⟨reply, e, rfl, ?_, ?_⟩
    · rw [hrun] at hsteps
      dsimp only at hsteps
      omega
    · exact runFrom_of_le (hsame.symm.trans hrun) (Nat.sub_le _ _)

/-- **An expired watchdog stops a call on time**, whatever code the call runs into. Take a machine
that has made some steps and whose watchdog has expired. A call on it is over when the machine has
made the step at which the watchdog is asked next. If the same call without a watchdog ends with
less steps, then it ends so; and otherwise it is stopped at exactly this step, behind the
instructions that the call without a watchdog executes before. And as long as a watchdog has not
expired, a call is at every moment what it is without one. -/
theorem expired_watchdog_stops (image : Image) (setup : Setup) (index : Nat)
    (arguments : List Int64) (e : Effects) :
    (setup.watchdog.isExpired e.steps = true →
      (∃ fuel reply e', call image setup.unwatched fuel index arguments e = (some reply, e') ∧
          e'.steps < e.steps + e.untilAsked ∧
          call image setup e.untilAsked index arguments e = (some reply, e')) ∨
        (∀ fuel reply e', call image setup.unwatched fuel index arguments e = (some reply, e') →
            e.steps + e.untilAsked ≤ e'.steps) ∧
          call image setup e.untilAsked index arguments e = (some (.error .timeout),
            { (call image setup.unwatched (e.untilAsked - 1) index arguments e).2 with
              steps := e.steps + e.untilAsked })) ∧
    ∀ fuel, (∀ step ≤ (call image setup.unwatched fuel index arguments e).2.steps,
        setup.watchdog.isExpired step = false) →
      call image setup fuel index arguments e =
        call image setup.unwatched fuel index arguments e := by
  simp only [call_eq, enter_unwatched]
  have hsteps : (proceed [] (enter image setup index arguments none 0 e)).2.steps = e.steps := by
    rw [proceed_snd]
    exact (adds_enter image setup index arguments none 0 e).steps_eq
  have huntil : (proceed [] (enter image setup index arguments none 0 e)).2.untilAsked =
      e.untilAsked := by
    rw [Effects.untilAsked, hsteps, Effects.untilAsked]
  constructor
  · intro hexpired
    rw [← hsteps] at hexpired
    have hends := runFrom_expired image hexpired
    rw [hsteps, huntil] at hends
    obtain ⟨reply, e', hrun, hlt, hcall⟩ | hstopped := hends
    · exact .inl ⟨_, reply, e', hrun, hlt, hcall⟩
    · exact .inr hstopped
  · intro fuel hcalm
    refine (runFrom_unwatched fuel fun step _ hle hstops => ?_).symm
    exact Bool.false_ne_true ((hcalm step hle).symm.trans hstops.2)

/-- `expired_watchdog_stops` for a function that never ends, on a machine that has made 1022 steps:
the call is stopped two steps later, and goes on there under a watchdog that has not expired. -/
theorem expired_watchdog_stops_example :
    (Watchdog.after 0).isExpired 1022 = true ∧
    (∀ fuel reply e', call Example.spinning {} fuel 0 [] { steps := 1022 } = (some reply, e') →
      1024 ≤ e'.steps) ∧
    call Example.spinning { watchdog := .after 0 } 2 0 [] { steps := 1022 } =
      (some (.error .timeout), { steps := 1024 }) ∧
    call Example.spinning { watchdog := .after 2000 } 2 0 [] { steps := 1022 } =
      call Example.spinning {} 2 0 [] { steps := 1022 } := by
  have hstops := (expired_watchdog_stops Example.spinning { watchdog := .after 0 } 0 []
    { steps := 1022 }).1 (by decide)
  have hgoes := (expired_watchdog_stops Example.spinning { watchdog := .after 2000 } 0 []
    { steps := 1022 }).2 2
  have hend : call Example.spinning { watchdog := .after 0 } 2 0 [] { steps := 1022 } =
      (some (.error .timeout), { steps := 1024 }) := by decide +kernel
  refine ⟨by decide, ?_, hend, hgoes fun step hle => ?_⟩
  · obtain ⟨fuel, reply, e', hcall, hlt, hends⟩ | ⟨hlate, -⟩ := hstops
    · obtain rfl : e' = { steps := 1024 } := (Prod.mk.inj (hends.symm.trans hend)).2
      exact absurd hlt (by decide)
    · exact hlate
  · have hsteps : (call Example.spinning {} 2 0 [] { steps := 1022 }).2.steps = 1024 := by
      decide +kernel
    have hle : step ≤ 1024 := hsteps ▸ hle
    exact decide_eq_false (by omega)

end Machine

end MutationLab
