import Mathlib.Algebra.BigOperators.Group.List.Basic
import Mathlib.Algebra.GroupWithZero.Nat
import Mathlib.Algebra.Order.Group.Nat
import Mathlib.Data.List.Induction
import MutationLab.Execution

/-! # The deciding test

The tests of a mutant are run in order until one of them does not pass. So one test decides, the
first one that does not pass or else the last one (`Execution.Decides`). The result of the mutant is
the result of this test with all running times up to it, and the state that is left is that of
running the tests up to it and no other (`Execution.Decides.decide_eq`). The running times can be
too long together (`Execution.Decides.decide_eq_overflow`), but not if one clock measures all of
them (`Execution.Measured.exists_decide_eq`). -/

namespace MutationLab

/-! ## Sums of running times -/

namespace Duration

/-- So many spans together, if this is not too long. -/
def sum? (ds : List Duration) : Option Duration := ofNanos? (ds.map nanos).sum

theorem isSome_sum?_iff {ds : List Duration} : (sum? ds).isSome ↔ (ds.map nanos).sum < bound :=
  isSome_ofNanos?_iff

/-- **Adding spans one after the other** comes to their sum, or stops where it gets too long. -/
theorem sum?_concat (ds : List Duration) (d : Duration) :
    sum? (ds ++ [d]) = (sum? ds).bind (·.add? d) := by
  have hsum : ((ds ++ [d]).map nanos).sum = (ds.map nanos).sum + d.nanos := by simp
  rw [sum?, hsum]
  cases hds : sum? ds with
  | some total =>
    rw [Option.bind_some, add?, ofNanos?_eq_some_iff.mp hds]
  | none =>
    rw [Option.bind_none, ← Option.not_isSome_iff_eq_none, isSome_ofNanos?_iff]
    rw [← Option.not_isSome_iff_eq_none, isSome_sum?_iff] at hds
    omega

/-- The first spans are shorter together than all of them. -/
theorem isSome_sum?_of_isPrefix {ds es : List Duration} (h : (sum? es).isSome)
    (hinitial : ds <+: es) : (sum? ds).isSome := by
  obtain ⟨others, rfl⟩ := hinitial
  rw [isSome_sum?_iff, List.map_append, List.sum_append] at h
  exact isSome_sum?_iff.mpr (Nat.lt_of_le_of_lt (Nat.le_add_right ..) h)

end Duration

namespace Execution

/-! ## Running tests one after the other -/

/-- Run the test with an id. An unknown one is not run, and its result is invalid. -/
def ask (tests : List Test) (run : Test → σ → ExecutionResult × σ) (id : TestId) (s : σ) :
    ExecutionResult × σ :=
  match tests[id]? with
  | none => (.invalid s!"unknown test {id}", s)
  | some test => run test s

/-- Run all of the tests: their results, and the state that is left. -/
def runAll (tests : List Test) (run : Test → σ → ExecutionResult × σ) :
    List TestId → σ → List ExecutionResult × σ
  | [], s => ([], s)
  | id :: ids, s =>
      let (result, s) := ask tests run id s
      let (results, s) := runAll tests run ids s
      (result :: results, s)

/-- How long each of the tests runs. -/
def times (tests : List Test) (run : Test → σ → ExecutionResult × σ) (ids : List TestId) (s : σ) :
    List Duration :=
  (runAll tests run ids s).1.map ExecutionResult.time

/-- Of the tests `ids` the test `id` decides: those before it passed, and it did not pass itself or
there is none behind it. -/
structure Decides (tests : List Test) (run : Test → σ → ExecutionResult × σ) (s : σ)
    (ids before : List TestId) (id : TestId) (after : List TestId) : Prop where
  eq_append : ids = before ++ id :: after
  passed : ∀ r ∈ (runAll tests run before s).1, r.status = .passed
  stops : (ask tests run id (runAll tests run before s).2).1.status ≠ .passed ∨ after = []

section

variable {tests : List Test} {run : Test → σ → ExecutionResult × σ} {total sum : Duration}
  {id : TestId} {ids : List TestId} {s : σ}

theorem runAll_cons (id : TestId) (ids : List TestId) (s : σ) :
    runAll tests run (id :: ids) s =
      ((ask tests run id s).1 :: (runAll tests run ids (ask tests run id s).2).1,
        (runAll tests run ids (ask tests run id s).2).2) := rfl

theorem runAll_append (ids others : List TestId) (s : σ) :
    runAll tests run (ids ++ others) s =
      ((runAll tests run ids s).1 ++ (runAll tests run others (runAll tests run ids s).2).1,
        (runAll tests run others (runAll tests run ids s).2).2) := by
  induction ids generalizing s with
  | nil => rfl
  | cons id ids ih =>
    rw [List.cons_append, runAll_cons, ih, runAll_cons]
    rfl

/-- The first results are those of the first tests. -/
theorem isPrefix_results (ids others : List TestId) (s : σ) :
    (runAll tests run ids s).1 <+: (runAll tests run (ids ++ others) s).1 := by
  rw [runAll_append]
  exact List.prefix_append _ _

theorem times_concat (ids : List TestId) (id : TestId) (s : σ) :
    times tests run (ids ++ [id]) s =
      times tests run ids s ++ [(ask tests run id (runAll tests run ids s).2).1.time] := by
  rw [times, times, runAll_append, List.map_append]
  rfl

/-- **Some test decides** if there is a test. -/
theorem exists_decides (tests : List Test) (run : Test → σ → ExecutionResult × σ) (s : σ)
    {ids : List TestId} (h : ids ≠ []) :
    ∃ before id after, Decides tests run s ids before id after := by
  induction ids generalizing s with
  | nil => exact absurd rfl h
  | cons first rest ih =>
    by_cases hstops : (ask tests run first s).1.status ≠ .passed ∨ rest = []
    · exact ⟨[], first, rest, rfl, fun _ hr => absurd hr List.not_mem_nil, hstops⟩
    · -- The first test passed, so the decision is left to the others.
      rw [not_or, not_not] at hstops
      obtain ⟨before, id, after, rfl, hpassed, hstops'⟩ := ih (ask tests run first s).2 hstops.2
      exact ⟨first :: before, id, after, rfl, List.forall_mem_cons.mpr ⟨hstops.1, hpassed⟩, hstops'⟩

/-! ## The ways out of the loop -/

/-- A test that passed is one of the tests. -/
theorem exists_of_passed (h : (ask tests run id s).1.status = .passed) :
    ∃ test, tests[id]? = some test ∧ ask tests run id s = run test s := by
  unfold ask at h ⊢
  cases htest : tests[id]? with
  | none =>
    rw [htest] at h
    exact nomatch h
  | some test => exact ⟨test, rfl, rfl⟩

/-- A running time that makes the sum too long tears the task down, behind the test. -/
theorem decideFrom_of_overflow (h : total.add? (ask tests run id s).1.time = none) :
    decideFrom tests run total id ids s = (.error overflow, (ask tests run id s).2) := by
  unfold ask at h ⊢
  rw [decideFrom]
  cases htest : tests[id]? with
  | none =>
    -- An unknown test takes no time.
    rw [htest, Duration.add?, ← Option.not_isSome_iff_eq_none, Duration.isSome_ofNanos?_iff] at h
    exact absurd total.nanos_lt h
  | some test =>
    rw [htest] at h
    dsimp only at h ⊢
    rw [h]

/-- A test that stops the run is the last one to be run. -/
theorem decideFrom_of_stops (hsum : total.add? (ask tests run id s).1.time = some sum)
    (h : (ask tests run id s).1.status ≠ .passed ∨ ids = []) :
    ∃ time, decideFrom tests run total id ids s =
        (.ok ((ask tests run id s).1.withTime time), (ask tests run id s).2) ∧
      (id < tests.length → time = sum) := by
  unfold ask at h hsum ⊢
  rw [decideFrom]
  cases htest : tests[id]? with
  | none =>
    exact ⟨.zero, rfl, fun hlt => absurd hlt (Nat.not_lt.mpr (List.getElem?_eq_none_iff.mp htest))⟩
  | some test =>
    rw [htest] at h hsum
    refine ⟨sum, ?_, fun _ => rfl⟩
    dsimp only at h hsum ⊢
    rw [hsum]
    dsimp only
    split
    · rename_i hpassed
      exact absurd (h.resolve_left (not_not.mpr hpassed)) (List.cons_ne_nil _ _)
    · rfl

/-- Behind a test that passed the next one is run. -/
theorem decideFrom_of_passed (hsum : total.add? (ask tests run id s).1.time = some sum)
    (h : (ask tests run id s).1.status = .passed) (next : TestId) (ids : List TestId) :
    decideFrom tests run total id (next :: ids) s =
      decideFrom tests run sum next ids (ask tests run id s).2 := by
  obtain ⟨test, htest, hask⟩ := exists_of_passed h
  rw [hask] at h hsum ⊢
  conv_lhs => rw [decideFrom]
  rw [htest]
  dsimp only
  rw [hsum]
  dsimp only
  rw [h]

/-- **Tests that pass are run one after the other**, as long as their running times have a sum. -/
theorem decide_of_passed {p : Point} {ran others : List TestId} {next : TestId}
    (hids : p.tests = ran ++ next :: others)
    (hpassed : ∀ r ∈ (runAll tests run ran s).1, r.status = .passed)
    (hsum : Duration.sum? (times tests run ran s) = some sum) :
    decide tests run p s = decideFrom tests run sum next others (runAll tests run ran s).2 := by
  -- By induction on the tests that passed, the last one first: it is run behind the others.
  induction ran using List.reverseRecOn generalizing next others sum with
  | nil =>
    obtain rfl : Duration.zero = sum := Option.some.inj hsum
    rw [decide, hids]
    rfl
  | append_singleton ran last ih =>
    rw [times_concat, Duration.sum?_concat] at hsum
    obtain ⟨total, htotal, hadd⟩ := Option.bind_eq_some_iff.mp hsum
    rw [runAll_append] at hpassed ⊢
    rw [List.forall_mem_append] at hpassed
    have hlast := hpassed.2 _ List.mem_cons_self
    rw [List.append_assoc] at hids
    rw [ih hids hpassed.1 htotal]
    exact decideFrom_of_passed hadd hlast next others

/-- If running times are too long together, they are so from some test on. -/
theorem exists_overflow (h : Duration.sum? (times tests run ids s) = none) :
    ∃ ran i others, ran ++ i :: others = ids ∧ (Duration.sum? (times tests run ran s)).isSome ∧
      Duration.sum? (times tests run (ran ++ [i]) s) = none := by
  induction ids using List.reverseRecOn with
  | nil => exact absurd h (Option.some_ne_none Duration.zero)
  | append_singleton ids last ih =>
    cases hsum : Duration.sum? (times tests run ids s) with
    | none =>
      obtain ⟨ran, i, others, rfl, hran, hover⟩ := ih hsum
      exact ⟨ran, i, others ++ [last], by simp, hran, hover⟩
    | some total => exact ⟨ids, last, [], rfl, Option.isSome_of_eq_some hsum, h⟩

end

/-! ## The deciding test -/

namespace Decides

variable {tests : List Test} {run : Test → σ → ExecutionResult × σ} {s later : σ} {p : Point}
  {before after : List TestId} {id : TestId} {sum : Duration} {result : ExecutionResult}

/-- The tests up to the deciding one are run, and no other one. -/
theorem exists_decide_eq (h : Decides tests run s p.tests before id after)
    (hsum : Duration.sum? (times tests run (before ++ [id]) s) = some sum) :
    ∃ time, decide tests run p s =
        (.ok ((ask tests run id (runAll tests run before s).2).1.withTime time),
          (runAll tests run (before ++ [id]) s).2) ∧
      (id < tests.length → time = sum) := by
  rw [times_concat, Duration.sum?_concat] at hsum
  obtain ⟨total, htotal, hadd⟩ := Option.bind_eq_some_iff.mp hsum
  rw [decide_of_passed h.eq_append h.passed htotal, runAll_append]
  exact decideFrom_of_stops hadd h.stops

/-- **The result of a mutant** is that of the deciding test, with the running times of all tests up
to it. These tests are run, and no other one. -/
theorem decide_eq (h : Decides tests run s p.tests before id after) (hid : id < tests.length)
    (hsum : Duration.sum? (times tests run (before ++ [id]) s) = some sum) :
    decide tests run p s =
      (.ok ((ask tests run id (runAll tests run before s).2).1.withTime sum),
        (runAll tests run (before ++ [id]) s).2) := by
  obtain ⟨time, hdecide, htime⟩ := h.exists_decide_eq hsum
  rw [hdecide, htime hid]

/-- **If the running times are too long together**, the task is torn down behind the first test at
which they are. No later test is run. -/
theorem decide_eq_overflow (h : Decides tests run s p.tests before id after)
    (hsum : Duration.sum? (times tests run (before ++ [id]) s) = none) :
    ∃ ran i others, ran ++ i :: others = before ++ [id] ∧
      (Duration.sum? (times tests run ran s)).isSome ∧
      Duration.sum? (times tests run (ran ++ [i]) s) = none ∧
      decide tests run p s = (.error overflow, (runAll tests run (ran ++ [i]) s).2) := by
  obtain ⟨ran, i, others, heq, hran, hover⟩ := exists_overflow hsum
  refine ⟨ran, i, others, heq, hran, hover, ?_⟩
  obtain ⟨total, htotal⟩ := Option.isSome_iff_exists.mp hran
  have hids : p.tests = ran ++ i :: (others ++ after) := by
    rw [h.eq_append, List.append_cons, ← heq, List.append_assoc, List.cons_append]
  -- Whatever is run before passes.
  obtain ⟨middle, rfl⟩ : ran <+: before := by
    have hlength := congrArg List.length heq
    simp only [List.length_append, List.length_cons, List.length_nil] at hlength
    exact List.prefix_of_prefix_length_le ⟨_, heq⟩ (List.prefix_append before [id]) (by omega)
  have hpassed : ∀ r ∈ (runAll tests run ran s).1, r.status = .passed := fun r hr =>
    h.passed r ((isPrefix_results ran middle s).subset hr)
  rw [times_concat, Duration.sum?_concat, htotal] at hover
  rw [decide_of_passed hids hpassed htotal, decideFrom_of_overflow hover, runAll_append]
  rfl

/-- If there is a result, the running times up to the deciding test have a sum. -/
theorem exists_sum (h : Decides tests run s p.tests before id after)
    (hresult : decide tests run p s = (.ok result, later)) :
    ∃ sum, Duration.sum? (times tests run (before ++ [id]) s) = some sum := by
  cases hsum : Duration.sum? (times tests run (before ++ [id]) s) with
  | some sum => exact ⟨sum, rfl⟩
  | none =>
    obtain ⟨ran, i, -, -, -, -, hoverflow⟩ := h.decide_eq_overflow hsum
    rw [hoverflow] at hresult
    exact nomatch (Prod.mk.inj hresult).1

/-- Its status is that of the deciding test, also if this is not one of the tests. -/
theorem status_eq (h : Decides tests run s p.tests before id after)
    (hresult : decide tests run p s = (.ok result, later)) :
    result.status = (ask tests run id (runAll tests run before s).2).1.status := by
  obtain ⟨sum, hsum⟩ := h.exists_sum hresult
  obtain ⟨time, hdecide, -⟩ := h.exists_decide_eq hsum
  rw [Except.ok.inj (Prod.mk.inj (hresult.symm.trans hdecide)).1]
  exact ExecutionResult.status_withTime _ _

end Decides

section

variable {tests : List Test} {run : Test → σ → ExecutionResult × σ} {s later : σ} {p : Point}
  {result : ExecutionResult} {status : Status}

/-- Without a test the result is invalid. -/
theorem status_of_tests_eq_nil (htests : p.tests = [])
    (hresult : decide tests run p s = (.ok result, later)) : result.status = .invalid := by
  rw [decide, htests] at hresult
  obtain rfl := Except.ok.inj (Prod.mk.inj hresult).1
  rfl

/-- **What decides about a mutant** has the status of a run of one of its tests, or it is invalid
because there is no test or an unknown one. -/
theorem status_decide_ne (hnone : p.tests = [] → status ≠ .invalid)
    (hunknown : ∀ i ∈ p.tests, tests[i]? = none → status ≠ .invalid)
    (hknown : ∀ i ∈ p.tests, ∀ test, tests[i]? = some test → ∀ s, (run test s).1.status ≠ status)
    (hresult : decide tests run p s = (.ok result, later)) : result.status ≠ status := by
  by_cases htests : p.tests = []
  · rw [status_of_tests_eq_nil htests hresult]
    exact (hnone htests).symm
  · obtain ⟨before, id, after, h⟩ := exists_decides tests run s htests
    have hid : id ∈ p.tests := by simp [h.eq_append]
    rw [h.status_eq hresult, ask]
    cases htest : tests[id]? with
    | none => exact (hunknown id hid htest).symm
    | some test => exact hknown id hid test htest _

/-- If all tests of a mutant have a sum of running times, there is a result. -/
theorem exists_decide_eq_ok (h : (Duration.sum? (times tests run p.tests s)).isSome) :
    ∃ result later, decide tests run p s = (.ok result, later) := by
  by_cases htests : p.tests = []
  · rw [decide, htests]
    exact ⟨_, _, rfl⟩
  · obtain ⟨before, id, after, hdecides⟩ := exists_decides tests run s htests
    have hinitial : times tests run (before ++ [id]) s <+: times tests run p.tests s := by
      have hids : p.tests = before ++ [id] ++ after := by simp [hdecides.eq_append]
      rw [times, times, hids]
      exact (isPrefix_results (before ++ [id]) after s).map ExecutionResult.time
    obtain ⟨sum, hsum⟩ := Option.isSome_iff_exists.mp (Duration.isSome_sum?_of_isPrefix h hinitial)
    obtain ⟨time, hdecide, -⟩ := hdecides.exists_decide_eq hsum
    exact ⟨_, _, hdecide⟩

end

/-! ## Running times that are measured -/

/-- The running times are measured by one clock: the state is the moment, and every run takes the
time that passes. -/
def Measured (run : Test → Duration → ExecutionResult × Duration) : Prop :=
  ∀ test start, start.nanos + (run test start).1.time.nanos = (run test start).2.nanos

/-- The runs of a mutant are measured. -/
theorem measured_runMutant (framework : Framework) (image : Image) (sandbox : Sandbox)
    (timing : Test → (start : Duration) → Timing start) (p : Point) :
    Measured (runMutant framework image sandbox timing p) := fun test start =>
  Nat.add_sub_of_le (timing test start).start_le_stop

/-- All tests together take the time that passes. -/
theorem Measured.add_sum_times {run : Test → Duration → ExecutionResult × Duration}
    (h : Measured run) (tests : List Test) (ids : List TestId) (start : Duration) :
    start.nanos + ((times tests run ids start).map Duration.nanos).sum =
      (runAll tests run ids start).2.nanos := by
  induction ids generalizing start with
  | nil => rfl
  | cons id ids ih =>
    have hask : start.nanos + (ask tests run id start).1.time.nanos =
        (ask tests run id start).2.nanos := by
      rw [ask]
      cases tests[id]? with
      | none => rfl
      | some test => exact h test start
    have hrest := ih (ask tests run id start).2
    rw [← hask, Nat.add_assoc] at hrest
    exact hrest

/-- **Running times that are measured are never too long together**, so that there is a result. -/
theorem Measured.exists_decide_eq {run : Test → Duration → ExecutionResult × Duration}
    (h : Measured run) (tests : List Test) (p : Point) :
    ∃ result stop, decide tests run p .zero = (.ok result, stop) := by
  refine exists_decide_eq_ok (Duration.isSome_sum?_iff.mpr ?_)
  have hsum := h.add_sum_times tests p.tests .zero
  rw [← hsum.symm.trans (Nat.zero_add _)]
  exact Duration.nanos_lt _

end Execution

end MutationLab
