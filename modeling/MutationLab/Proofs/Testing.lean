import MutationLab.Testing

/-! # Tests and verdicts

The tests of the built-in framework are numbered by their positions, so an id finds its test again
(`Testing.getElem?_of_mem_findAll`). The framework calls a run invalid only if the symbol of the
test is missing, and never a dry run. A sandbox adds timeouts to this and nothing else, whatever its
clock says (`Sandbox.status_run_ne`). -/

namespace MutationLab

namespace Testing

variable {mangling : Mangling}

/-! ## Finding tests -/

/-- About functions that are passed over there are warnings only. -/
theorem level_of_mem_findIn {module : ModuleId} {next : TestId} {fs : List Function} {m : Message}
    (h : m ∈ (findIn mangling module next fs).2) : m.level = .warning := by
  induction fs generalizing next with
  | nil => exact nomatch h
  | cons f fs ih =>
    rw [findIn] at h
    by_cases hmarked : (!isMarked f) = true
    · rw [if_pos hmarked] at h
      exact ih h
    · rw [if_neg hmarked] at h
      by_cases hparams : f.params ≠ 0
      · rw [if_pos hparams] at h
        obtain rfl | h := List.mem_cons.mp h
        · rfl
        · exact ih h
      · rw [if_neg hparams] at h
        exact ih h

theorem level_of_mem_findAll {next : TestId} {ss : List Subject} {m : Message}
    (h : m ∈ (findAll mangling next ss).2) : m.level = .warning := by
  induction ss generalizing next with
  | nil => exact nomatch h
  | cons s ss ih =>
    rw [findAll] at h
    obtain h | h := List.mem_append.mp h
    · exact level_of_mem_findIn h
    · exact ih h

/-- The tests of a module are numbered one after the other. -/
theorem id_of_getElem?_findIn {module : ModuleId} {next position : Nat} {fs : List Function}
    {test : Test} (h : (findIn mangling module next fs).1[position]? = some test) :
    test.id = next + position := by
  induction fs generalizing next position with
  | nil => exact nomatch h
  | cons f fs ih =>
    rw [findIn] at h
    by_cases hmarked : (!isMarked f) = true
    · rw [if_pos hmarked] at h
      exact ih h
    · rw [if_neg hmarked] at h
      by_cases hparams : f.params ≠ 0
      · rw [if_pos hparams] at h
        exact ih h
      · rw [if_neg hparams] at h
        cases position with
        | zero =>
          obtain rfl := Option.some.inj h
          rfl
        | succ position =>
          have hnext := ih h
          rw [hnext, Nat.add_assoc, Nat.add_comm 1]

/-- So are the tests of all modules. -/
theorem id_of_getElem?_findAll {next position : Nat} {ss : List Subject} {test : Test}
    (h : (findAll mangling next ss).1[position]? = some test) : test.id = next + position := by
  induction ss generalizing next position with
  | nil => exact nomatch h
  | cons s ss ih =>
    rw [findAll] at h
    dsimp only at h
    by_cases hlt : position < (findIn mangling s.id next s.module.functions).1.length
    · rw [List.getElem?_append_left hlt] at h
      exact id_of_getElem?_findIn h
    · rw [List.getElem?_append_right (Nat.le_of_not_lt hlt)] at h
      have hnext := ih h
      rw [hnext, Nat.add_assoc, Nat.add_sub_of_le (Nat.le_of_not_lt hlt)]

/-- **A test is found again under its id.** -/
theorem getElem?_of_mem_findAll {ss : List Subject} {test : Test}
    (h : test ∈ (findAll mangling 0 ss).1) : (findAll mangling 0 ss).1[test.id]? = some test := by
  obtain ⟨position, hposition⟩ := List.mem_iff_getElem?.mp h
  have hid := id_of_getElem?_findAll hposition
  rw [Nat.zero_add] at hid
  rw [hid, hposition]

/-! ## Running tests -/

/-- The outcome of an entry is judged neither to be invalid nor not to be one. -/
theorem status_judge (outcome : Option (Except Trap Int64)) :
    (judge outcome).status ≠ .invalid ∧ (judge outcome).status ≠ .dryRun := by
  unfold judge
  split
  · dsimp only
    split <;> exact ⟨nofun, nofun⟩
  · exact ⟨nofun, nofun⟩
  · exact ⟨nofun, nofun⟩
  · exact ⟨nofun, nofun⟩

/-- A run is not invalid if the test has its symbol. -/
theorem status_run_ne_invalid {image : Image} {test : Test} (h : (image.index? test.symbol).isSome)
    (context : TestContext) : (run image test context).1.status ≠ .invalid := by
  obtain ⟨entry, hentry⟩ := Option.isSome_iff_exists.mp h
  rw [run, hentry]
  exact (status_judge _).1

/-- A run is no dry run. -/
theorem status_run_ne_dryRun (image : Image) (test : Test) (context : TestContext) :
    (run image test context).1.status ≠ .dryRun := by
  rw [run]
  split
  · exact nofun
  · exact (status_judge _).2

end Testing

/-! ## Running tests in a sandbox -/

namespace Sandbox

variable {start : Duration}

/-- A sandbox gives no result a status that its job does not, a timeout apart. -/
theorem status_run_ne {status : Status} (hstatus : status ≠ .timedout)
    {job : Watchdog → ExecutionResult × α} (h : ∀ watchdog, (job watchdog).1.status ≠ status)
    (sandbox : Sandbox) (timing : Timing start) :
    (sandbox.run (fun watchdog => .ok (job watchdog)) timing).1.status ≠ status := by
  cases sandbox with
  | inline => exact h _
  | watched =>
    rw [run, await]
    dsimp only [settle]
    split
    · exact h _
    · exact hstatus.symm

/-- A job that passes in a sandbox has passed by itself, and what it has found is kept. -/
theorem run_of_passed {sandbox : Sandbox} {job : Watchdog → ExecutionResult × α}
    {timing : Timing start}
    (h : (sandbox.run (fun watchdog => .ok (job watchdog)) timing).1.status = .passed) :
    (job timing.watchdog).1.status = .passed ∧
      (sandbox.run (fun watchdog => .ok (job watchdog)) timing).2 =
        some (job timing.watchdog).2 := by
  cases sandbox with
  | inline => exact ⟨h, rfl⟩
  | watched =>
    rw [run, await] at h ⊢
    dsimp only [settle] at h ⊢
    split at h
    · rename_i harrives
      rw [if_pos harrives]
      exact ⟨h, rfl⟩
    · exact nomatch h

end Sandbox

end MutationLab
