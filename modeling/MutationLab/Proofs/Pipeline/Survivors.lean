import MutationLab.Proofs.Pipeline.Outcome

/-! # The points that survive

Functions are filtered, their instructions are selected, points are searched and filtered again, by
stages that deal their work out to pools. Together they come to one set (`Pipeline.narrow_exact`): a
point for each operator and instruction that no condition rules out (`Pipeline.Survives`), and no
other point. As it does not matter which of the filters rules something out, the filters of a chain
can stand in any order and be repeated (`Pipeline.narrowed_alike`). -/

namespace MutationLab

/-! ## Functions by their keys -/

namespace Program

/-- The function of a key, and the module that it is in. -/
structure Defines (program : Program) (key : FunctionKey) (m : Module) (f : Function) : Prop where
  module_eq : program.modules[key.module]? = some m
  mem : f ∈ m.functions
  name_eq : f.name = key.name

variable {program : Program} {key : FunctionKey} {m : Module} {f : Function}

/-- It is the one that is looked up, where names are distinct. -/
theorem defines_iff (hnames : ∀ m ∈ program.modules, m.functionNames.Nodup) :
    program.Defines key m f ↔
      ∃ s, program.subject? key.module = some s ∧ s.module = m ∧ m.function? key.name = some f := by
  have hmodule : program.modules[key.module]? = some m ↔
      ∃ s, program.subject? key.module = some s ∧ s.module = m := by
    rw [modules, List.getElem?_map, ← subject?, Option.map_eq_some_iff]
  constructor
  · rintro ⟨hm, hmem, hname⟩
    obtain ⟨s, hs, rfl⟩ := hmodule.mp hm
    have hdistinct := hnames _ (List.mem_of_getElem? hm)
    exact ⟨s, hs, rfl, (Module.function?_eq_some_iff hdistinct).mpr ⟨hmem, hname⟩⟩
  · rintro ⟨s, hs, hm, hf⟩
    obtain ⟨hmem, hname⟩ := Module.mem_of_function?_eq_some hf
    exact ⟨hmodule.mpr ⟨s, hs, hm⟩, hmem, hname⟩

/-- What is looked up is a function that is defined. -/
theorem function?_of_subject? {s : Subject} (hs : program.subject? key.module = some s)
    (hf : s.module.function? key.name = some f) : program.function? key = some f := by
  rw [function?, hs]
  exact hf

end Program

/-! ## Chains of filters -/

/-- A chain of conditions asks for the same as another one that has the same members. -/
theorem all_congr_mem {xs ys : List α} (h : ∀ x, x ∈ xs ↔ x ∈ ys) (condition : α → Bool) :
    xs.all condition = ys.all condition := by
  rw [Bool.eq_iff_iff, List.all_eq_true, List.all_eq_true]
  exact forall_congr' fun x => imp_congr_left (h x)

/-- Filters that are the same apart from their order and from how often each of them stands in its
chain. -/
structure Filters.Alike (a b : Filters) : Prop where
  functions : ∀ filter, filter ∈ a.functions ↔ filter ∈ b.functions
  instructions : ∀ filter, filter ∈ a.instructions ↔ filter ∈ b.instructions
  points : ∀ filter, filter ∈ a.points ↔ filter ∈ b.points

namespace Candidate

/-- A function of the program passes a filter that does not skip it. -/
theorem passes_eq_true_iff {program : Program} {c : Candidate} {f : Function}
    (hf : program.function? c.function = some f) (filter : FunctionFilter) :
    c.passes program filter = true ↔ filter.skips c f = false := by
  simp only [passes, hf, Bool.not_eq_true']

/-- What makes an instruction eligible. -/
theorem isEligible_eq_true_iff {filters : List InstructionFilter} {i : Instruction} :
    isEligible filters i = true ↔
      i.operation.isDispatch = false ∧ ∀ filter ∈ filters, filter.accepts i = true := by
  rw [isEligible, Bool.and_eq_true, Bool.not_eq_true', List.all_eq_true]

/-- **The positions that are selected** are those of eligible instructions. -/
theorem mem_eligibleFrom {filters : List InstructionFilter} {first position : Nat}
    {is : List Instruction} :
    position ∈ eligibleFrom filters first is ↔
      ∃ k i, is[k]? = some i ∧ isEligible filters i = true ∧ position = first + k := by
  induction is generalizing first with
  | nil => simp [eligibleFrom]
  | cons i is ih =>
    -- Behind the first instruction everything stands one position further on.
    have hrest : position ∈ eligibleFrom filters (first + 1) is ↔
        ∃ k j, (i :: is)[k + 1]? = some j ∧ isEligible filters j = true ∧
          position = first + (k + 1) := by
      simp only [ih, List.getElem?_cons_succ, Nat.add_assoc, Nat.add_comm 1]
    have hfirst : position ∈ eligibleFrom filters first (i :: is) ↔
        (isEligible filters i = true ∧ position = first) ∨
          position ∈ eligibleFrom filters (first + 1) is := by
      rw [eligibleFrom]
      split <;> simp_all
    rw [hfirst, hrest]
    constructor
    · rintro (⟨hi, rfl⟩ | ⟨k, j, hj⟩)
      · exact ⟨0, i, rfl, hi, rfl⟩
      · exact ⟨k + 1, j, hj⟩
    · rintro ⟨k, j, hj, hj', rfl⟩
      cases k with
      | zero =>
        obtain rfl := Option.some.inj hj
        exact .inl ⟨hj', rfl⟩
      | succ k => exact .inr ⟨k, j, hj, hj', rfl⟩

/-- Chains with the same members select the same positions. -/
theorem select_congr_mem {a b : List InstructionFilter} (h : ∀ filter, filter ∈ a ↔ filter ∈ b)
    (program : Program) : select program a = select program b := by
  have heligible : isEligible a = isEligible b :=
    funext fun i => congrArg (!i.operation.isDispatch && ·) (all_congr_mem h _)
  have hpositions : ∀ first is, eligibleFrom a first is = eligibleFrom b first is := by
    intro first is
    induction is generalizing first with
    | nil => rfl
    | cons i is ih => rw [eligibleFrom, eligibleFrom, ih, heligible]
  funext c
  simp only [select, hpositions]

end Candidate

namespace Pipeline

/-! ## The stages and what they come to -/

/-- The stages from functions under test to the points that the filters leave. -/
def narrow (p : Pipeline) (program : Program) (cs : List Candidate) : Run (List Point) := do
  let kept ← p.filterFunctions program p.filters.functions cs
  let selected ← p.selectInstructions program kept
  let found ← p.searchPoints program selected
  let points ← p.dropPoints p.filters.points found
  return Point.sortById points

/-- A run makes these stages for the functions that its tests cover. -/
theorem findPoints_narrow (p : Pipeline) (probes : Probes)
    (instrumented libraries : List ObjectFile) {tests : List Test} (htests : tests ≠ []) :
    (do
      let found ← p.findPoints probes instrumented libraries tests
      let points ← p.dropPoints p.filters.points found
      return Point.sortById points) = (do
      let loaded ← Run.single "Preparing original test run" fun w =>
        (p.framework.load (instrumented ++ libraries ++ w.program.objects), [])
      match loaded with
      | .error e => throw (.link e)
      | .ok none => throw .notLoaded
      | .ok (some image) =>
          let program := (← get).program
          let covered ← p.coverage probes image tests
          p.narrow program covered) := by
  have hsome : tests.isEmpty = false := List.isEmpty_eq_false_iff.mpr htests
  simp only [findPoints, hsome, Bool.false_eq_true, if_false, bind_assoc, narrow]
  refine congrArg _ (funext fun loaded => ?_)
  rcases loaded with e | _ | image
  · rfl
  · rfl
  · simp only [bind_assoc]

/-- The points that the filters leave of those of functions under test. -/
def narrowed (p : Pipeline) (program : Program) (cs : List Candidate) : List Point :=
  p.surviving (Point.sortById ((p.selected program cs).flatMap (p.pointsOf program)))

section

variable {p : Pipeline} {program : Program} {cs : List Candidate}

/-- **The stages come to these points** if the functions under test are in modules of the
program. -/
theorem comes_narrow (hknown : ∀ c ∈ cs, ∃ s, program.subject? c.function.module = some s)
    (w : Workspace) :
    (p.narrow program cs).Comes w (.ok (p.narrowed program cs)) (w.Leaves w.program 0) := by
  have hselected : ∀ c ∈ p.selected program cs,
      ∃ s, program.subject? c.function.module = some s := by
    intro c hc
    obtain ⟨original, horiginal, rfl⟩ := List.mem_map.mp hc
    rw [Candidate.function_select]
    exact hknown original (List.mem_of_mem_filter horiginal)
  refine (comes_filterFunctions program _ cs).andThen fun between hbetween => ?_
  refine (comes_selectInstructions program _).andThen fun selected hselect => ?_
  refine (comes_searchPoints hselected).andThen fun searched hsearched => ?_
  refine ((comes_dropPoints p.filters.points _).map Point.sortById).imp fun later hlater => ?_
  exact hbetween.same (hselect.same (hsearched.same hlater))

/-- Neither the order of filters nor their repetition matters, nor does anything that is
configured. -/
theorem narrowed_alike {filters : Filters} (h : filters.Alike p.filters)
    (configuration : Configuration) :
    { p with configuration, filters }.narrowed program cs = p.narrowed program cs := by
  have hselected : { p with configuration, filters }.selected program cs =
      p.selected program cs := by
    simp only [selected, all_congr_mem h.functions, Candidate.select_congr_mem h.instructions]
  have hsurviving : ∀ points,
      { p with configuration, filters }.surviving points = p.surviving points := by
    intro points
    simp only [surviving, all_congr_mem h.points]
  rw [narrowed, hselected, hsurviving]
  rfl

/-! ## Which points survive -/

/-- What it takes for a point to survive that is on an instruction of a function under test, and
what it says then. -/
structure Survives (p : Pipeline) (c : Candidate) (m : Module) (f : Function) (i : Instruction)
    (point : Point) : Prop where
  function_kept : ∀ filter ∈ p.filters.functions, filter.skips c f = false
  body_eq : f.body[point.instruction]? = some i
  not_dispatch : i.operation.isDispatch = false
  accepted : ∀ filter ∈ p.filters.instructions, filter.accepts i = true
  operator_mem : point.operator ∈ p.operators
  isSite : point.operator.isSite i.operation = true
  point_eq : point =
    { operator := point.operator
      module := c.function.module
      moduleName := m.name
      function := c.function.name
      instruction := point.instruction
      location := i.location
      tests := c.tests
      distance := c.distance }
  point_kept : ∀ filter ∈ p.filters.points, filter.skips point = false

/-- A function whose instructions have been selected has a point for each operator on each eligible
instruction. -/
theorem mem_pointsOf_select {c : Candidate} {s : Subject} {f : Function} {point : Point}
    (hs : program.subject? c.function.module = some s)
    (hf : s.module.function? c.function.name = some f) (filters : List InstructionFilter) :
    point ∈ p.pointsOf program (c.select program filters) ↔
      ∃ i, f.body[point.instruction]? = some i ∧ Candidate.isEligible filters i = true ∧
        point.operator ∈ p.operators ∧ point.operator.isSite i.operation = true ∧
        point = c.pointAt s.module.name point.instruction i point.operator := by
  have hselect : c.select program filters =
      { c with selected := Candidate.eligibleFrom filters 0 f.body } := by
    rw [Candidate.select, Program.function?_of_subject? hs hf]
  obtain ⟨points, hpoints⟩ : ∃ points, (c.select program filters).points program p.operators =
      .ok points := by
    rw [hselect, Candidate.points, hs]
    dsimp only
    rw [hf]
    exact ⟨_, rfl⟩
  have hof : p.pointsOf program (c.select program filters) = points := by
    rw [pointsOf, hpoints]
    rfl
  rw [hof, Candidate.mem_points_iff hpoints, hselect]
  constructor
  · rintro ⟨s', f', hs', hf', position, hposition, i, hi, operator, hoperator, hsite, rfl⟩
    obtain rfl := Option.some.inj (hs.symm.trans hs')
    obtain rfl := Option.some.inj (hf.symm.trans hf')
    obtain ⟨k, j, hj, heligible, rfl⟩ := Candidate.mem_eligibleFrom.mp hposition
    rw [Nat.zero_add] at hi
    obtain rfl := Option.some.inj (hj.symm.trans hi)
    refine ⟨j, ?_, heligible, hoperator, hsite, rfl⟩
    simpa [Candidate.pointAt] using hj
  · rintro ⟨i, hi, heligible, hoperator, hsite, heq⟩
    refine ⟨s, f, hs, hf, point.instruction, ?_, i, hi, point.operator, hoperator, hsite, heq⟩
    exact Candidate.mem_eligibleFrom.mpr ⟨_, i, hi, heligible, (Nat.zero_add _).symm⟩

/-- **The points that the filters leave** are those that survive. -/
theorem mem_narrowed_iff (hnames : ∀ m ∈ program.modules, m.functionNames.Nodup)
    (hknown : ∀ c ∈ cs, ∃ m f, program.Defines c.function m f) {point : Point} :
    point ∈ p.narrowed program cs ↔
      ∃ c ∈ cs, ∃ m f i, program.Defines c.function m f ∧ p.Survives c m f i point := by
  -- Sorting moves points, but makes none and loses none.
  have hmem : point ∈ p.narrowed program cs ↔
      (∃ c ∈ cs, (∀ filter ∈ p.filters.functions, c.passes program filter = true) ∧
        point ∈ p.pointsOf program (c.select program p.filters.instructions)) ∧
        ∀ filter ∈ p.filters.points, filter.skips point = false := by
    simp [narrowed, surviving, Point.sortById, selected, List.mem_mergeSort, and_assoc]
  rw [hmem]
  constructor
  · rintro ⟨⟨c, hc, hpasses, hpoint⟩, hkept⟩
    obtain ⟨m, f, hdefines⟩ := hknown c hc
    obtain ⟨s, hs, rfl, hf⟩ := (Program.defines_iff hnames).mp hdefines
    obtain ⟨i, hi, heligible, hoperator, hsite, heq⟩ := (mem_pointsOf_select hs hf _).mp hpoint
    obtain ⟨hdispatch, haccepted⟩ := Candidate.isEligible_eq_true_iff.mp heligible
    have hskips := Candidate.passes_eq_true_iff (Program.function?_of_subject? hs hf)
    have hkeptFunction : ∀ filter ∈ p.filters.functions, filter.skips c f = false :=
      fun filter hfilter => (hskips filter).mp (hpasses filter hfilter)
    exact ⟨c, hc, s.module, f, i, hdefines, hkeptFunction, hi, hdispatch, haccepted, hoperator,
      hsite, heq, hkept⟩
  · rintro ⟨c, hc, m, f, i, hdefines, h⟩
    obtain ⟨s, hs, rfl, hf⟩ := (Program.defines_iff hnames).mp hdefines
    have heligible := Candidate.isEligible_eq_true_iff.mpr ⟨h.not_dispatch, h.accepted⟩
    have hskips := Candidate.passes_eq_true_iff (Program.function?_of_subject? hs hf)
    refine ⟨⟨c, hc, fun filter hfilter => (hskips filter).mpr (h.function_kept filter hfilter), ?_⟩,
      h.point_kept⟩
    exact (mem_pointsOf_select hs hf _).mpr
      ⟨i, h.body_eq, heligible, h.operator_mem, h.isSite, h.point_eq⟩

/-- **The points that survive are exactly those that no condition rules out.** Take functions under
test with distinct keys, all of them defined in a program whose modules have distinct names for
their functions, and operators without duplicates. Whatever is configured, and with the filters of
each chain in any order and any of them repeated, the stages come to the same points: those that
survive, and no others. No two of them are of one operator on one instruction, they ascend by their
ids, and the tests of each of them ascend as those of the functions under test do. -/
theorem narrow_exact (hnames : ∀ m ∈ program.modules, m.functionNames.Nodup)
    (hkeys : (cs.map Candidate.function).Nodup)
    (hknown : ∀ c ∈ cs, ∃ m f, program.Defines c.function m f)
    (htests : ∀ c ∈ cs, c.tests.Pairwise (· < ·)) (hoperators : p.operators.Nodup) :
    ∃ points,
      (∀ configuration filters, filters.Alike p.filters → ∀ w,
        ({ p with configuration, filters }.narrow program cs).Comes w (.ok points)
          (w.Leaves w.program 0)) ∧
      (∀ point, point ∈ points ↔
        ∃ c ∈ cs, ∃ m f i, program.Defines c.function m f ∧ p.Survives c m f i point) ∧
      Point.Apart points ∧
      points.Pairwise (fun a b => a.id ≤ b.id) ∧
      ∀ point ∈ points, point.tests.Pairwise (· < ·) := by
  have hmodules : ∀ c ∈ cs, ∃ s, program.subject? c.function.module = some s := by
    intro c hc
    obtain ⟨m, f, hdefines⟩ := hknown c hc
    obtain ⟨s, hs, -⟩ := (Program.defines_iff hnames).mp hdefines
    exact ⟨s, hs⟩
  refine ⟨p.narrowed program cs, ?_, fun point => mem_narrowed_iff hnames hknown, ?_,
    pairwise_mergeSort Point.id _, ?_⟩
  · intro configuration filters halike w
    rw [← narrowed_alike halike configuration]
    exact comes_narrow hmodules w
  · exact apart_surviving (Point.Apart.perm (apart_selected hoperators hkeys)
      (List.mergeSort_perm _ _).symm)
  · intro point hpoint
    obtain ⟨c, hc, m, f, i, -, hsurvives⟩ := (mem_narrowed_iff hnames hknown).mp hpoint
    rw [hsurvives.point_eq]
    exact htests c hc

end

end Pipeline

namespace Example

/-- Both functions under test, each reached by two tests. -/
def covered : List Candidate :=
  [{ function := ⟨0, "sum"⟩, tests := [0, 1], distance := 1 },
    { function := ⟨0, "difference"⟩, tests := [0, 1], distance := 2 }]

/-- A run that leaves out one of them. -/
def filtered : Pipeline :=
  { pipeline with filters := { functions := [.maxDistance 1] } }

end Example

/-- `narrow_exact` at two functions of which the filter, which is repeated, leaves one. -/
theorem Pipeline.narrow_exact_example :
    ∃ points,
      ({ Example.filtered with
        configuration := { pools := .uniform 3 }
        filters := { functions := [.maxDistance 1, .maxDistance 1] } }.narrow
          Example.workspace.program Example.covered).Comes Example.workspace (.ok points)
            (Example.workspace.Leaves Example.workspace.program 0) ∧
      { Example.addition with tests := [0, 1], distance := 1 } ∈ points ∧
      ∀ point ∈ points, point.function = "sum" := by
  have hnames : ∀ m ∈ Example.workspace.program.modules, m.functionNames.Nodup := by
    decide +kernel
  have hknown : ∀ c ∈ Example.covered, ∃ m f,
      Example.workspace.program.Defines c.function m f := by
    intro c hc
    obtain rfl | hc := List.mem_cons.mp hc
    · exact ⟨Example.arithmetic, _, rfl, List.mem_cons_self, rfl⟩
    · obtain rfl := List.mem_singleton.mp hc
      exact ⟨Example.arithmetic, _, rfl, List.mem_cons_of_mem _ List.mem_cons_self, rfl⟩
  obtain ⟨points, hcomes, hpoints, -⟩ := narrow_exact (p := Example.filtered) hnames
    (by decide) hknown (by decide) (by decide +kernel)
  have halike : Filters.Alike { functions := [.maxDistance 1, .maxDistance 1] }
      Example.filtered.filters := by
    constructor <;> simp [Example.filtered]
  refine ⟨points, hcomes { pools := .uniform 3 } _ halike Example.workspace, ?_, ?_⟩
  · refine (hpoints _).mpr ⟨_, List.mem_cons_self, Example.arithmetic, _,
      { operation := .binary 2 .add 0 1 }, ⟨rfl, List.mem_cons_self, rfl⟩, ?_⟩
    exact {
      function_kept := by simp [Example.filtered, FunctionFilter.maxDistance]
      body_eq := rfl
      not_dispatch := rfl
      accepted := fun _ h => nomatch h
      operator_mem := by decide +kernel
      isSite := rfl
      point_eq := rfl
      point_kept := fun _ h => nomatch h }
  · intro point hpoint
    obtain ⟨c, hc, m, f, i, -, hsurvives⟩ := (hpoints point).mp hpoint
    have hkept := hsurvives.function_kept _ List.mem_cons_self
    rw [hsurvives.point_eq]
    obtain rfl | hc := List.mem_cons.mp hc
    · rfl
    · obtain rfl := List.mem_singleton.mp hc
      -- It is farther from its tests than the filter lets through.
      have hfar : (FunctionFilter.maxDistance 1).skips ⟨⟨0, "difference"⟩, [0, 1], 2, []⟩ f =
        true := rfl
      exact absurd (hfar.symm.trans hkept) (by decide)

end MutationLab
