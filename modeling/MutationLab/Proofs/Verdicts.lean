import MutationLab.Operator.Catalog
import MutationLab.Proofs.Deciding

/-! # Verdicts about mutants

One test decides about a mutant, and which one depends on the order in which the tests are run.
Whether the mutant is killed does not: this is so exactly when one of its tests kills it
(`Execution.isKilled_iff`). All that is recorded about a mutant, and all that its tests do, comes
from the tests up to the deciding one (`Execution.first_not_passed_decides`). -/

namespace MutationLab

namespace Example

/-- Three tests. -/
def tests : List Test :=
  ["slow", "broken", "quick"].mapIdx fun id name =>
    { id, name, symbol := name, module := 0, location := none }

/-- The second test fails, and the others pass. Each of them takes a time of its own. -/
def outcome (time : Test → Duration) (test : Test) : ExecutionResult :=
  { status := if test.name = "broken" then .failed else .passed, time := time test }

/-- Some microseconds. -/
def brief (test : Test) : Duration := .ofMicros (.ofNat (10 + test.id))

/-- Half of the time that is too long. -/
def endless (_ : Test) : Duration := ⟨Duration.bound / 2, by decide⟩

/-- The tests that are run are written down. -/
def logged (time : Test → Duration) (test : Test) (log : List String) :
    ExecutionResult × List String :=
  (outcome time test, log ++ [test.name])

/-- A mutant that three tests reach. -/
def reachedByThree : Point :=
  { operator := .swapping "add_to_sub" "+" "-" [.swap .add .sub], module := 0, moduleName := "m",
    function := "f", instruction := 0, tests := [0, 1, 2] }

/-- The same mutant with its tests in the other order. -/
def turnedAround : Point := { reachedByThree with tests := reachedByThree.tests.reverse }

end Example

/-! ## Statuses -/

/-- The statuses of a test that has been run. -/
def Status.isVerdict : Status → Bool
  | passed | failed | crashed | timedout => true
  | invalid | dryRun => false

/-- A test that has been run and did not pass kills a mutant. -/
theorem Status.isKilled_of_ne_passed {status : Status} (h : status.isVerdict = true)
    (hne : status ≠ .passed) : status.isKilled = true := by
  cases status <;> first | rfl | exact absurd rfl hne | exact absurd h Bool.false_ne_true

/-- A test that passed does not. -/
theorem Status.ne_passed_of_isKilled {status : Status} (h : status.isKilled = true) :
    status ≠ .passed := by
  rintro rfl
  exact Bool.false_ne_true h

namespace Execution

/-! ## Results that are assigned to tests -/

/-- The result of the test with an id. -/
def answer (tests : List Test) (outcome : Test → ExecutionResult) (id : TestId) :
    ExecutionResult :=
  match tests[id]? with
  | none => .invalid s!"unknown test {id}"
  | some test => outcome test

section

variable {tests : List Test} {run : Test → σ → ExecutionResult × σ}
  {outcome : Test → ExecutionResult} (hrun : ∀ test s, (run test s).1 = outcome test)

include hrun

theorem fst_ask (id : TestId) (s : σ) : (ask tests run id s).1 = answer tests outcome id := by
  rw [ask, answer]
  cases tests[id]? with
  | none => rfl
  | some test => exact hrun test s

theorem fst_runAll (ids : List TestId) (s : σ) :
    (runAll tests run ids s).1 = ids.map (answer tests outcome) := by
  induction ids generalizing s with
  | nil => rfl
  | cons id ids ih => exact congrArg₂ List.cons (fst_ask hrun id s) (ih _)

theorem times_eq (ids : List TestId) (s : σ) :
    times tests run ids s = ids.map fun id => (answer tests outcome id).time := by
  rw [times, fst_runAll hrun, List.map_map]
  rfl

variable {s later : σ} {p : Point} {result : ExecutionResult}
  (hresult : decide tests run p s = (.ok result, later))

include hresult

/-- **A mutant survives** if all of its tests pass. -/
theorem status_eq_passed_iff (hnone : p.tests ≠ []) :
    result.status = .passed ↔ ∀ id ∈ p.tests, (answer tests outcome id).status = .passed := by
  obtain ⟨before, id, after, h⟩ := exists_decides tests run s hnone
  rw [h.status_eq hresult, fst_ask hrun, h.eq_append]
  constructor
  · intro hpassed i hi
    have hstops := h.stops
    rw [fst_ask hrun] at hstops
    obtain rfl := hstops.resolve_left (not_not.mpr hpassed)
    obtain hi | hi := List.mem_append.mp hi
    · refine h.passed _ ?_
      rw [fst_runAll hrun]
      exact List.mem_map_of_mem hi
    · rw [List.mem_singleton.mp hi]
      exact hpassed
  · intro hpassed
    exact hpassed id (by simp)

/-- **A mutant is killed** if one of its tests does not pass, when all of them have been run. -/
theorem isKilled_iff
    (hverdict : ∀ id ∈ p.tests, (answer tests outcome id).status.isVerdict = true) :
    result.status.isKilled = true ↔
      ∃ id ∈ p.tests, (answer tests outcome id).status.isKilled = true := by
  by_cases hnone : p.tests = []
  · refine iff_of_false ?_ ?_
    · rw [status_of_tests_eq_nil hnone hresult]
      exact Bool.false_ne_true
    · rintro ⟨id, hid, -⟩
      rw [hnone] at hid
      exact absurd hid List.not_mem_nil
  · obtain ⟨before, id, after, h⟩ := exists_decides tests run s hnone
    have hstatus : result.status = (answer tests outcome id).status := by
      rw [h.status_eq hresult, fst_ask hrun]
    have hid : id ∈ p.tests := by simp [h.eq_append]
    constructor
    · intro hkilled
      exact ⟨id, hid, hstatus ▸ hkilled⟩
    · rintro ⟨i, hi, hkilled⟩
      have hsurvives := mt (status_eq_passed_iff hrun hresult hnone).mp fun hpassed =>
        Status.ne_passed_of_isKilled hkilled (hpassed i hi)
      rw [hstatus] at hsurvives ⊢
      exact Status.isKilled_of_ne_passed (hverdict id hid) hsurvives

/-- **A mutant that is killed does not survive when more tests reach it**: the deciding test of the
one is a test of the other. -/
theorem status_ne_passed_of_subset (hkilled : result.status.isKilled = true) {q : Point}
    (hsubset : p.tests ⊆ q.tests) {start stop : σ} {other : ExecutionResult}
    (hother : decide tests run q start = (.ok other, stop)) :
    other.status ≠ .passed ∧
      ((∀ id ∈ q.tests, (answer tests outcome id).status.isVerdict = true) →
        other.status.isKilled = true) := by
  have hnone : p.tests ≠ [] := by
    intro hnone
    rw [status_of_tests_eq_nil hnone hresult] at hkilled
    exact Bool.false_ne_true hkilled
  obtain ⟨before, id, after, h⟩ := exists_decides tests run s hnone
  have hmem : id ∈ q.tests := hsubset (by simp [h.eq_append])
  rw [h.status_eq hresult, fst_ask hrun] at hkilled
  refine ⟨fun hpassed => ?_,
    fun hverdict => (isKilled_iff hrun hother hverdict).mpr ⟨id, hmem, hkilled⟩⟩
  have hall := (status_eq_passed_iff hrun hother (List.ne_nil_of_mem hmem)).mp hpassed
  exact Status.ne_passed_of_isKilled hkilled (hall id hmem)

end

/-- **The first test that does not pass decides about a mutant**, and the last one if all pass. Let
a mutant have tests, all of them known, and let running a test do whatever it does to a state. Then
some test is the deciding one. If the running times up to it have a sum, there is a result: that of
the deciding test with this sum. The state that is left is that of running the tests up to the
deciding one in their order, so that these are run and no later one is. If the running times have no
sum, the task is torn down behind the first test at which they have none. A result is put out, once
it is reported; a task that is torn down puts out nothing. In the runs of a pipeline the running
times are measured, and there always is a result.

Now let every test have its result, whenever it is run. If all tests have been run, a mutant is
killed exactly when one of them kills it, in whatever order they stand. And a mutant that is killed
does not survive when more tests reach it. There is a result, in any order and for more tests, as
long as the running times of all tests have a sum. -/
theorem first_not_passed_decides (tests : List Test) (run : Test → σ → ExecutionResult × σ)
    (p : Point) (s : σ) (hnone : p.tests ≠ []) (hknown : ∀ id ∈ p.tests, id < tests.length) :
    (∃ before id after, Decides tests run s p.tests before id after ∧
      (∀ sum, Duration.sum? (times tests run (before ++ [id]) s) = some sum →
        decide tests run p s =
          (.ok ((ask tests run id (runAll tests run before s).2).1.withTime sum),
            (runAll tests run (before ++ [id]) s).2)) ∧
      (Duration.sum? (times tests run (before ++ [id]) s) = none →
        ∃ ran i others, ran ++ i :: others = before ++ [id] ∧
          (Duration.sum? (times tests run ran s)).isSome ∧
          Duration.sum? (times tests run (ran ++ [i]) s) = none ∧
          decide tests run p s = (.error overflow, (runAll tests run (ran ++ [i]) s).2))) ∧
    (∀ (reporter : Reporter) written,
      (∀ result lines, (decide tests run p s).1 = .ok result →
        reporter p result.status.isKilled = .ok lines →
          (task (fun q => (decide tests run q s).1) reporter p written).1 =
            { outputs := [⟨p, result⟩] }) ∧
      ∀ panic, (decide tests run p s).1 = .error panic →
        (task (fun q => (decide tests run q s).1) reporter p written).1 =
          { ending := .panicked panic }) ∧
    (∀ framework image sandbox timing, ∃ result stop,
      decide tests (runMutant framework image sandbox timing p) p .zero = (.ok result, stop)) ∧
    ∀ outcome : Test → ExecutionResult, (∀ test s, (run test s).1 = outcome test) →
      ((∀ id ∈ p.tests, (answer tests outcome id).status.isVerdict = true) →
        ∀ q : Point, q.tests.Perm p.tests → ∀ start result later,
          decide tests run q start = (.ok result, later) →
            (result.status.isKilled = true ↔
              ∃ id ∈ p.tests, (answer tests outcome id).status.isKilled = true)) ∧
      (∀ result later, decide tests run p s = (.ok result, later) →
        result.status.isKilled = true → ∀ q : Point, p.tests ⊆ q.tests → ∀ start other stop,
          decide tests run q start = (.ok other, stop) → other.status ≠ .passed ∧
            ((∀ id ∈ q.tests, (answer tests outcome id).status.isVerdict = true) →
              other.status.isKilled = true)) ∧
      ∀ q : Point, (Duration.sum? (q.tests.map fun id => (answer tests outcome id).time)).isSome →
        ∀ start, ∃ result later, decide tests run q start = (.ok result, later) := by
  refine ⟨?_, fun reporter written => ⟨?_, ?_⟩, ?_, fun outcome hrun => ⟨?_, ?_, ?_⟩⟩
  · obtain ⟨before, id, after, h⟩ := exists_decides tests run s hnone
    have hid : id < tests.length := hknown id (by simp [h.eq_append])
    exact ⟨before, id, after, h, fun sum => h.decide_eq hid, h.decide_eq_overflow⟩
  · intro result lines hresult hlines
    rw [task, hresult]
    dsimp only
    split
    · rfl
    · rw [hlines]
  · intro panic hpanic
    rw [task, hpanic]
  · intro framework image sandbox timing
    exact (measured_runMutant framework image sandbox timing p).exists_decide_eq tests p
  · intro hverdict q hperm start result later hresult
    rw [isKilled_iff hrun hresult fun i hi => hverdict i (hperm.mem_iff.mp hi)]
    simp only [hperm.mem_iff]
  · intro result later hresult hkilled q hsubset start other stop hother
    exact status_ne_passed_of_subset hrun hresult hkilled hsubset hother
  · intro q hsum start
    rw [← times_eq hrun q.tests start] at hsum
    exact exists_decide_eq_ok hsum

/-- `first_not_passed_decides` for a mutant that the second of three tests kills: turning the tests
around changes which tests are run and how long that takes, and not the verdict. -/
theorem first_not_passed_decides_example :
    Example.reachedByThree.tests ≠ [] ∧
    (∀ id ∈ Example.reachedByThree.tests, id < Example.tests.length) ∧
    (∀ test log, (Example.logged Example.brief test log).1 = Example.outcome Example.brief test) ∧
    (∀ id ∈ Example.reachedByThree.tests,
      (answer Example.tests (Example.outcome Example.brief) id).status.isVerdict = true) ∧
    decide Example.tests (Example.logged Example.brief) Example.reachedByThree [] =
      (.ok { status := .failed, time := .ofMicros 21 }, ["slow", "broken"]) ∧
    decide Example.tests (Example.logged Example.brief) Example.turnedAround [] =
      (.ok { status := .failed, time := .ofMicros 23 }, ["quick", "broken"]) ∧
    decide Example.tests (Example.logged Example.endless) Example.reachedByThree [] =
      (.error overflow, ["slow", "broken"]) ∧
    ∃ result log, decide Example.tests (Example.logged Example.brief) Example.turnedAround [] =
      (.ok result, log) ∧ result.status.isKilled = true := by
  have hknown : ∀ id ∈ Example.reachedByThree.tests, id < Example.tests.length := by decide
  have hverdict : ∀ id ∈ Example.reachedByThree.tests,
      (answer Example.tests (Example.outcome Example.brief) id).status.isVerdict = true := by decide
  refine ⟨by decide, hknown, fun _ _ => rfl, hverdict, by decide +kernel, by decide +kernel,
    by decide +kernel, ?_⟩
  obtain ⟨-, -, -, hassigned⟩ := first_not_passed_decides Example.tests
    (Example.logged Example.brief) Example.reachedByThree [] (by decide) hknown
  obtain ⟨hkilled, -, hexists⟩ := hassigned (Example.outcome Example.brief) fun _ _ => rfl
  obtain ⟨result, log, hresult⟩ := hexists Example.turnedAround (by decide +kernel) []
  exact ⟨result, log, hresult,
    (hkilled hverdict _ (List.reverse_perm _) [] result log hresult).mpr ⟨1, by decide, by decide⟩⟩

end Execution

end MutationLab
