import MutationLab.Discovery
import MutationLab.Program
import MutationLab.Proofs.Lookup
import MutationLab.Proofs.Pools

/-! # What discovery finds

Every point that a search finds is a point of one of its candidates, however the workers share the
work. What it says about its place is true of the program that was searched (`Discovery.Found`). -/

namespace MutationLab

namespace Program

/-- Modules are numbered by their positions. -/
theorem getElem?_numbered (first : ModuleId) (ms : List Module) (id : ModuleId) :
    (numbered first ms)[id]? = ms[id]?.map (Subject.ofModule (first + id)) := by
  induction ms generalizing first id with
  | nil => rfl
  | cons m ms ih =>
    cases id with
    | zero => rfl
    | succ id =>
      rw [numbered, List.getElem?_cons_succ, List.getElem?_cons_succ, ih, Nat.add_right_comm]
      rfl

/-- Numbered modules are the modules. -/
theorem map_module_numbered (first : ModuleId) (ms : List Module) :
    (numbered first ms).map Subject.module = ms := by
  induction ms generalizing first with
  | nil => rfl
  | cons m ms ih => rw [numbered, List.map_cons, ih, Subject.ofModule]

/-- Their numbers go up by one. -/
theorem map_numbered (first : ModuleId) (ms : List Module) :
    (numbered first ms).map (fun s => (s.module, s.id)) = ms.zipIdx first := by
  induction ms generalizing first with
  | nil => rfl
  | cons m ms ih => rw [numbered, List.map_cons, ih, List.zipIdx_cons, Subject.ofModule]

end Program

/-! ## Points -/

/-- What a found point says about its place holds of the program: the operator is one of those that
were searched for, and the point is on a function of the module with its number and name. -/
structure Discovery.Found (ms : List Module) (operators : List Operator) (p : Point) : Prop where
  operator_mem : p.operator ∈ operators
  placed : ∃ m f, ms[p.module]? = some m ∧ m.name = p.moduleName ∧ f ∈ m.functions ∧
    f.name = p.function

/-- A point is on an instruction in which its operator has a site. -/
def Point.Sited (ms : List Module) (p : Point) : Prop :=
  ∃ m f, ms[p.module]? = some m ∧ m.function? p.function = some f ∧
    (Subject.mutateAt p.operator p.instruction f.body).isSome

theorem Point.Sited.lt {ms : List Module} {p : Point} (h : p.Sited ms) : p.module < ms.length := by
  obtain ⟨m, -, hm, -⟩ := h
  exact (List.getElem?_eq_some_iff.mp hm).1

/-- An operator that has a site in an instruction can mutate it. -/
theorem Subject.isSome_mutateAt {operator : Operator} {position : Nat} {body : List Instruction}
    {i : Instruction} (hi : body[position]? = some i) (hsite : operator.isSite i.operation = true) :
    (mutateAt operator position body).isSome := by
  rw [← Operator.isSome_mutate?] at hsite
  obtain ⟨operation, hoperation⟩ := Option.isSome_iff_exists.mp hsite
  rw [mutateAt, hi]
  simp [hoperation]

namespace Candidate

/-- What is known about a point of a candidate: it is on an instruction of the function in which the
operator has a site, and carries the tests of the candidate. -/
structure Offers (ms : List Module) (operators : List Operator) (c : Candidate) (p : Point) :
    Prop where
  operator_mem : p.operator ∈ operators
  module_eq : p.module = c.function.module
  function_eq : p.function = c.function.name
  tests_eq : p.tests = c.tests
  placed : ∃ m f, ms[p.module]? = some m ∧ m.name = p.moduleName ∧
    m.function? p.function = some f ∧ (Subject.mutateAt p.operator p.instruction f.body).isSome

section

variable {ms : List Module} {operators : List Operator} {c : Candidate} {p : Point}

/-- A point of a candidate is found. -/
theorem Offers.found (h : c.Offers ms operators p) : Discovery.Found ms operators p := by
  obtain ⟨m, f, hm, hmname, hf, -⟩ := h.placed
  obtain ⟨hmem, hname⟩ := Module.mem_of_function?_eq_some hf
  exact ⟨h.operator_mem, m, f, hm, hmname, hmem, hname⟩

/-- A point of a candidate has a site. -/
theorem Offers.sited (h : c.Offers ms operators p) : p.Sited ms := by
  obtain ⟨m, f, hm, -, hf, hsite⟩ := h.placed
  exact ⟨m, f, hm, hf, hsite⟩

end

/-- Selecting instructions leaves the function and the tests. -/
theorem function_select (program : Program) (filters : List InstructionFilter) (c : Candidate) :
    (c.select program filters).function = c.function := by
  rw [select]
  split <;> rfl

theorem tests_select (program : Program) (filters : List InstructionFilter) (c : Candidate) :
    (c.select program filters).tests = c.tests := by
  rw [select]
  split <;> rfl

/-- The point of an operator at an instruction of a candidate. -/
def pointAt (c : Candidate) (moduleName : String) (position : Nat) (i : Instruction)
    (operator : Operator) : Point :=
  { operator, module := c.function.module, moduleName, function := c.function.name,
    instruction := position, location := i.location, tests := c.tests, distance := c.distance }

/-- At a position there is a point for every operator that has a site there. -/
theorem mem_pointsAt {operators : List Operator} {moduleName : String} {body : List Instruction}
    {c : Candidate} {position : Nat} {p : Point} :
    p ∈ c.pointsAt operators moduleName body position ↔
      ∃ i, body[position]? = some i ∧ ∃ operator ∈ operators,
        operator.isSite i.operation = true ∧ p = c.pointAt moduleName position i operator := by
  rw [pointsAt]
  cases body[position]? with
  | none => simp
  | some i =>
    simp only [List.mem_map, List.mem_filter, Option.some.injEq, exists_eq_left', and_assoc,
      eq_comm]
    rfl

/-- **The points of a candidate** are those at its selected positions. -/
theorem mem_points_iff {program : Program} {operators : List Operator} {c : Candidate}
    {points : List Point} {p : Point} (h : c.points program operators = .ok points) :
    p ∈ points ↔ ∃ s f, program.subject? c.function.module = some s ∧
      s.module.function? c.function.name = some f ∧ ∃ position ∈ c.selected, ∃ i,
        f.body[position]? = some i ∧ ∃ operator ∈ operators,
          operator.isSite i.operation = true ∧ p = c.pointAt s.module.name position i operator := by
  rw [Candidate.points] at h
  cases hs : program.subject? c.function.module with
  | none =>
    rw [hs] at h
    exact nomatch h
  | some s =>
    rw [hs] at h
    dsimp only at h
    cases hf : s.module.function? c.function.name with
    | none =>
      rw [hf] at h
      obtain rfl := Except.ok.inj h
      simp [hf]
    | some f =>
      rw [hf] at h
      obtain rfl := Except.ok.inj h
      simp only [List.mem_flatMap, mem_pointsAt, Option.some.injEq]
      constructor
      · exact fun hposition => ⟨s, f, rfl, hf, hposition⟩
      · rintro ⟨other, g, rfl, hg, hposition⟩
        obtain rfl := Option.some.inj (hf.symm.trans hg)
        exact hposition

/-- They are all that they say. -/
theorem offers_of_mem_points {program : Program} {operators : List Operator} {c : Candidate}
    {points : List Point} {p : Point} (h : c.points program operators = .ok points)
    (hp : p ∈ points) : c.Offers program.modules operators p := by
  obtain ⟨s, f, hs, hf, position, -, i, hi, operator, hoperator, hsite, rfl⟩ :=
    (mem_points_iff h).mp hp
  have hm : program.modules[c.function.module]? = some s.module := by
    rw [Program.modules, List.getElem?_map, ← Program.subject?, hs]
    rfl
  exact ⟨hoperator, rfl, rfl, rfl, s.module, f, hm, rfl, hf, Subject.isSome_mutateAt hi hsite⟩

end Candidate

/-- **What a search says about its points is true.** -/
theorem Discovery.found_of_mem_points {program : Program} {ms : List Module}
    {operators : List Operator} {workers : Nat} {candidates : List Candidate} {log : Log}
    {found : List Point} {p : Point} (hprogram : program.subjects = Program.numbered 0 ms)
    (h : (points program operators workers candidates log).1 = .ok found) (hp : p ∈ found) :
    Found ms operators p := by
  rw [points] at h
  obtain ⟨outputs, houtputs, rfl⟩ := map_eq_ok_iff.mp h
  -- Sorting moves points, but makes none.
  rw [Point.sortById, List.mem_mergeSort] at hp
  obtain ⟨c, -, _, hmem⟩ := Pool.exists_of_mem_execute houtputs hp
  rw [search, Task.stateless] at hmem
  cases hpoints : c.points program operators with
  | error e =>
    rw [hpoints] at hmem
    exact nomatch hmem
  | ok points =>
    rw [hpoints] at hmem
    have hoffers := Candidate.offers_of_mem_points hpoints hmem
    rw [Program.modules, hprogram, Program.map_module_numbered] at hoffers
    exact hoffers.found

end MutationLab
