import MutationLab.Proofs.Mutants.Naming
import MutationLab.Proofs.Pipeline.Searching

/-! # What is known about the points of a run

The points of a run are on different sites (`Pipeline.apart_surviving`), because each function is a
candidate once and each position of its body is selected once. What they say about their places is
true, and each carries the ids of tests, at least one, which have passed on the instrumented image
(`Pipeline.exists_passed_of_mem_candidates`). -/

namespace MutationLab

namespace Candidate

/-! ## The points of a candidate -/

/-- Positions are counted from the first on. -/
theorem le_of_mem_eligibleFrom {filters : List InstructionFilter} {first position : Nat}
    {is : List Instruction} (h : position ∈ eligibleFrom filters first is) : first ≤ position := by
  induction is generalizing first with
  | nil => cases h
  | cons i is ih =>
    rw [eligibleFrom] at h
    split at h
    · obtain rfl | h := List.mem_cons.mp h
      · exact Nat.le_refl _
      · exact Nat.le_of_succ_le (ih h)
    · exact Nat.le_of_succ_le (ih h)

/-- No position is selected twice. -/
theorem nodup_eligibleFrom (filters : List InstructionFilter) (first : Nat)
    (is : List Instruction) : (eligibleFrom filters first is).Nodup := by
  induction is generalizing first with
  | nil => exact List.nodup_nil
  | cons i is ih =>
    rw [eligibleFrom]
    split
    · refine List.nodup_cons.mpr ⟨fun hmem => ?_, ih (first + 1)⟩
      exact Nat.not_succ_le_self first (le_of_mem_eligibleFrom hmem)
    · exact ih (first + 1)

/-- So it is in a candidate whose instructions have been selected. -/
theorem nodup_selected_select (program : Program) (filters : List InstructionFilter)
    (c : Candidate) : (c.select program filters).selected.Nodup := by
  rw [select]
  split
  · exact List.nodup_nil
  · exact nodup_eligibleFrom _ _ _

/-- A point at a position is on the instruction there. -/
theorem instruction_of_mem_pointsAt {operators : List Operator} {moduleName : String}
    {body : List Instruction} {c : Candidate} {position : Nat} {p : Point}
    (h : p ∈ c.pointsAt operators moduleName body position) : p.instruction = position := by
  obtain ⟨i, -, operator, -, -, rfl⟩ := mem_pointsAt.mp h
  rfl

/-- **The points of a candidate are on different sites** if each position is selected once and no
operator is searched for twice. -/
theorem apart_points {program : Program} {operators : List Operator} {c : Candidate}
    {points : List Point} (hoperators : operators.Nodup) (hselected : c.selected.Nodup)
    (h : c.points program operators = .ok points) : Point.Apart points := by
  rw [Candidate.points] at h
  split at h
  · cases h
  · split at h
    · obtain rfl := Except.ok.inj h
      exact List.Pairwise.nil
    · obtain rfl := Except.ok.inj h
      refine List.pairwise_flatMap.mpr ⟨fun position _ => ?_, ?_⟩
      · -- At one position the operators differ.
        rw [pointsAt]
        split
        · exact List.Pairwise.nil
        · refine List.pairwise_map.mpr ((hoperators.filter _).imp fun {a b} hne hsame => ?_)
          exact hne hsame.1
      · refine hselected.imp fun {a b} hne p hp q hq hsame => hne ?_
        rw [← instruction_of_mem_pointsAt hp, ← instruction_of_mem_pointsAt hq, hsame.2.2.2]

end Candidate

namespace Pipeline

variable {p : Pipeline} {program : Program}

/-- The functions under test that all filters let through, with their instructions selected. -/
def selected (p : Pipeline) (program : Program) (cs : List Candidate) : List Candidate :=
  let kept := cs.filter fun c => p.filters.functions.all fun filter => c.passes program filter
  kept.map (Candidate.select program p.filters.instructions)

/-- They are different functions if those under test are. -/
theorem nodup_function_selected {cs : List Candidate} (h : (cs.map Candidate.function).Nodup) :
    ((p.selected program cs).map Candidate.function).Nodup := by
  have hselect : (Candidate.function ∘ Candidate.select program p.filters.instructions) =
      Candidate.function := funext fun c => Candidate.function_select ..
  rw [selected, List.map_map, hselect]
  exact h.sublist ((List.filter_sublist).map _)

/-- None of their positions is selected twice. -/
theorem nodup_of_mem_selected {cs : List Candidate} {c : Candidate}
    (h : c ∈ p.selected program cs) : c.selected.Nodup := by
  obtain ⟨original, -, rfl⟩ := List.mem_map.mp h
  exact Candidate.nodup_selected_select ..

/-- The points of a candidate are offered by it. -/
theorem offers_of_mem_pointsOf {c : Candidate} {point : Point}
    (h : point ∈ p.pointsOf program c) : c.Offers program.modules p.operators point := by
  rw [pointsOf] at h
  cases hpoints : c.points program p.operators with
  | error e =>
    rw [hpoints] at h
    cases h
  | ok points =>
    rw [hpoints] at h
    exact Candidate.offers_of_mem_points hpoints h

/-- They are on different sites. -/
theorem apart_pointsOf (hoperators : p.operators.Nodup) {c : Candidate} (hc : c.selected.Nodup) :
    Point.Apart (p.pointsOf program c) := by
  rw [pointsOf]
  cases hpoints : c.points program p.operators with
  | error e => exact List.Pairwise.nil
  | ok points => exact Candidate.apart_points hoperators hc hpoints

/-- **The points of different functions are on different sites.** -/
theorem apart_selected (hoperators : p.operators.Nodup) {cs : List Candidate}
    (hkeys : (cs.map Candidate.function).Nodup) :
    Point.Apart ((p.selected program cs).flatMap (p.pointsOf program)) := by
  refine List.pairwise_flatMap.mpr
    ⟨fun c hc => apart_pointsOf hoperators (nodup_of_mem_selected hc), ?_⟩
  refine (List.pairwise_map.mp (nodup_function_selected hkeys)).imp
    fun {a b} hne point hpoint other hother hsame => hne ?_
  have hoffers := offers_of_mem_pointsOf hpoint
  have hoffers' := offers_of_mem_pointsOf hother
  obtain ⟨-, hmodule, hfunction, -⟩ := hsame
  calc a.function = ⟨point.module, point.function⟩ := by
        rw [hoffers.module_eq, hoffers.function_eq]
    _ = ⟨other.module, other.function⟩ := by rw [hmodule, hfunction]
    _ = b.function := by rw [hoffers'.module_eq, hoffers'.function_eq]

/-- A point that is found is offered by a candidate. -/
theorem exists_offers_of_found {objects : List ObjectFile} {tests : List Test}
    {points : List Point} {point : Point} (h : p.found program objects tests = .ok points)
    (hpoint : point ∈ points) :
    ∃ image, p.framework.load objects = .ok (some image) ∧
      ∃ c ∈ p.candidates program image tests, c.Offers program.modules p.operators point := by
  rw [found] at h
  split at h
  · obtain rfl := Except.ok.inj h
    cases hpoint
  · split at h
    · cases h
    · cases h
    · rename_i image hload
      obtain rfl := Except.ok.inj h
      rw [Point.sortById, List.mem_mergeSort] at hpoint
      obtain ⟨c, hc, hmem⟩ := List.mem_flatMap.mp hpoint
      exact ⟨image, hload, c, hc, offers_of_mem_pointsOf hmem⟩

/-- The points that the filters leave are among those that were found. -/
theorem mem_of_mem_surviving {points : List Point} {point : Point}
    (h : point ∈ p.surviving points) : point ∈ points := by
  rw [surviving, Point.sortById, List.mem_mergeSort] at h
  exact List.mem_of_mem_filter h

/-! ## On different sites -/

/-- **The points that are found are on different sites.** -/
theorem apart_found {objects : List ObjectFile} {tests : List Test} {points : List Point}
    (hoperators : p.operators.Nodup) (h : p.found program objects tests = .ok points) :
    Point.Apart points := by
  rw [found] at h
  split at h
  · obtain rfl := Except.ok.inj h
    exact List.Pairwise.nil
  · split at h
    · cases h
    · cases h
    · rename_i image _
      obtain rfl := Except.ok.inj h
      refine Point.Apart.perm ?_ (List.mergeSort_perm _ _).symm
      exact apart_selected hoperators (Candidate.nodup_function_merge _)

/-- So are those that the filters leave. -/
theorem apart_surviving {points : List Point} (h : Point.Apart points) :
    Point.Apart (p.surviving points) :=
  Point.Apart.perm (h.sublist List.filter_sublist) (List.mergeSort_perm _ _).symm

/-! ## With tests -/

/-- **A candidate has tests**, and all of them have passed on the instrumented image. -/
theorem exists_passed_of_mem_candidates {image : Image} {tests : List Test} {c : Candidate}
    (h : c ∈ p.candidates program image tests) :
    c.tests ≠ [] ∧ ∀ id ∈ c.tests, ∃ test ∈ tests, test.id = id ∧
      (p.sandbox.run
        (fun watchdog => .ok (p.framework.run image test { watchdog, tracing := true }))
        (p.originalTiming test)).1.status = .passed := by
  obtain ⟨merged, records, hsums, -, htests, ⟨r, hr, hfunction⟩, hrecords⟩ :=
    exists_sums_of_mem_candidates h
  rw [htests]
  refine ⟨List.ne_nil_of_mem ((hsums.mem_tests r.test).mpr ⟨r, hr, hfunction, rfl⟩), ?_⟩
  intro id hid
  obtain ⟨r, hr, -, rfl⟩ := (hsums.mem_tests id).mp hid
  obtain ⟨test, htest, hr⟩ := hrecords r hr
  obtain ⟨hid, hpassed, -⟩ := of_mem_outputs_cover hr
  exact ⟨test, htest, hid.symm, hpassed⟩

end Pipeline

end MutationLab
