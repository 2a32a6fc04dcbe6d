import Mathlib.Algebra.GroupWithZero.Nat
import Mathlib.Algebra.Order.BigOperators.Group.List
import Mathlib.Algebra.Order.Group.Nat
import Mathlib.Data.List.Nodup
import MutationLab.Pool
import MutationLab.Proofs.Success

/-! # What worker pools do

The slices of a partition are the inputs, cut up (`Partition.flatten_slices`). So every output of a
stage is an output of its task for one of the inputs (`Pool.exists_of_mem_execute`). Where the steps
of a task are known beforehand (`Task.Foreseen`), a stage puts out what its inputs give, slice by
slice, each up to the first input that is not done (`Pool.execute_eq`). If all of them are done,
then neither the number of workers nor the borders of the slices can be seen in what the stage
leaves behind (`Pool.execute_of_clean`). -/

namespace MutationLab

/-! ## Partitions -/

namespace Partition

/-- How many items the workers from `worker` on have. -/
theorem sum_rangesFrom (items workers : Nat) (remaining worker first : Nat) :
    ((rangesFrom items workers remaining worker first).map fun r => r.last - r.first).sum =
      ((List.range' worker remaining).map (size items workers)).sum := by
  induction remaining generalizing worker first with
  | zero => rfl
  | succ remaining ih =>
    rw [rangesFrom, List.map_cons, List.sum_cons, ih, List.range'_succ, List.map_cons,
      List.sum_cons, Nat.add_sub_cancel_left]

/-- The first workers have one item more, as long as there are any left. -/
theorem sum_size (items workers count : Nat) :
    ((List.range count).map (size items workers)).sum =
      count * (items / workers) + min count (items % workers) := by
  induction count with
  | zero => simp
  | succ count ih =>
    rw [List.range_succ, List.map_append, List.sum_append, ih, List.map_singleton,
      List.sum_singleton, size, Nat.succ_mul]
    split <;> omega

/-- Together the ranges have as many items as there are. -/
theorem sum_ranges (items workers : Nat) :
    ((ranges items workers).map fun r => r.last - r.first).sum = items := by
  have hpos : 0 < max workers 1 := by omega
  have hlt := Nat.mod_lt items hpos
  rw [ranges, sum_rangesFrom, ← List.range_eq_range', sum_size, Nat.min_eq_right (by omega)]
  exact Nat.div_add_mod items (max workers 1)

/-- The pieces of a list are its beginning. -/
theorem flatten_cut (sizes : List Nat) (xs : List α) :
    (cut sizes xs).flatten = xs.take sizes.sum := by
  induction sizes generalizing xs with
  | nil => simp [cut]
  | cons n ns ih => rw [cut, List.flatten_cons, ih, List.sum_cons, ← List.take_add]

/-- **The slices of a list are the list, cut up.** -/
theorem flatten_slices (workers : Nat) (xs : List α) : (slices workers xs).flatten = xs := by
  rw [slices, flatten_cut, sum_ranges, List.take_length]

/-- There are as many pieces as sizes. -/
theorem length_cut (sizes : List Nat) (xs : List α) : (cut sizes xs).length = sizes.length := by
  induction sizes generalizing xs with
  | nil => rfl
  | cons n ns ih => rw [cut, List.length_cons, ih, List.length_cons]

theorem length_rangesFrom (items workers remaining worker first : Nat) :
    (rangesFrom items workers remaining worker first).length = remaining := by
  induction remaining generalizing worker first with
  | zero => rfl
  | succ remaining ih => rw [rangesFrom, List.length_cons, ih]

/-- **Every worker has a slice.** -/
theorem length_slices {workers : Nat} (hworkers : workers ≠ 0) (xs : List α) :
    (slices workers xs).length = workers := by
  rw [slices, length_cut, List.length_map, ranges, length_rangesFrom]
  omega

/-- A single worker has everything. -/
theorem slices_one (xs : List α) : slices 1 xs = [xs] := by
  simp [slices, ranges, rangesFrom, size, cut, Nat.mod_one]

/-- The pieces of a list hold nothing else. -/
theorem subset_of_mem_cut {sizes : List Nat} {xs slice : List α} (h : slice ∈ cut sizes xs) :
    slice ⊆ xs := by
  intro x hx
  have hflat : x ∈ (cut sizes xs).flatten := List.mem_flatten.mpr ⟨slice, h, hx⟩
  rw [flatten_cut] at hflat
  exact List.mem_of_mem_take hflat

end Partition

/-! ## Outputs and their inputs -/

namespace Pool

section

variable {label : String} {total : Nat} {task : Task σ α β} {y : β}

/-- What a worker puts out is an output for an input of its slice. -/
theorem exists_of_mem_work {xs : List α} {shared : Shared σ} {outputs : List β}
    (h : (work label total task xs shared).1 = .ok outputs) (hy : y ∈ outputs) :
    ∃ x ∈ xs, ∃ s, y ∈ (task x s).1.outputs := by
  induction xs generalizing shared outputs with
  | nil =>
    obtain rfl := Except.ok.inj h
    exact nomatch hy
  | cons x xs ih =>
    rw [work] at h
    cases hending : (task x shared.state).1.ending with
    | panicked p =>
      simp only [hending] at h
      exact nomatch h
    | failed e =>
      -- The worker stops here, but keeps what the failing input has put out.
      simp only [hending, Except.ok.injEq] at h
      exact ⟨x, List.mem_cons_self, shared.state, h ▸ hy⟩
    | done =>
      simp only [hending] at h
      obtain ⟨rest, hrest, rfl⟩ := map_eq_ok_iff.mp h
      obtain hy | hy := List.mem_append.mp hy
      · exact ⟨x, List.mem_cons_self, shared.state, hy⟩
      · obtain ⟨z, hz, hs⟩ := ih hrest hy
        exact ⟨z, List.mem_cons_of_mem x hz, hs⟩

/-- What several workers put out is an output for an input of one of their slices. -/
theorem exists_of_mem_workAll {slices : List (List α)} {shared : Shared σ}
    (hy : y ∈ (workAll label total task slices shared).1) :
    ∃ slice ∈ slices, ∃ x ∈ slice, ∃ s, y ∈ (task x s).1.outputs := by
  induction slices generalizing shared with
  | nil => exact nomatch hy
  | cons slice slices ih =>
    rw [workAll] at hy
    cases hwork : (work label total task slice shared).1 with
    | error p =>
      -- What a worker put out before it panicked is lost.
      simp only [hwork] at hy
      obtain ⟨other, hother, hx⟩ := ih hy
      exact ⟨other, List.mem_cons_of_mem slice hother, hx⟩
    | ok outputs =>
      simp only [hwork] at hy
      obtain hy | hy := List.mem_append.mp hy
      · exact ⟨slice, List.mem_cons_self, exists_of_mem_work hwork hy⟩
      · obtain ⟨other, hother, hx⟩ := ih hy
        exact ⟨other, List.mem_cons_of_mem slice hother, hx⟩

/-- **What a stage puts out** is an output of its task for one of the inputs. -/
theorem exists_of_mem_execute {workers : Nat} {inputs : List α} {log : Log} {state : σ}
    {outputs : List β} (h : (execute label workers task inputs log state).1 = .ok outputs)
    (hy : y ∈ outputs) : ∃ x ∈ inputs, ∃ s, y ∈ (task x s).1.outputs := by
  rw [execute] at h
  by_cases hnone : workers = 0
  · rw [if_pos hnone, Except.ok.injEq] at h
    exact nomatch h ▸ hy
  rw [if_neg hnone] at h
  by_cases hone : workers = 1
  · rw [if_pos hone] at h
    split at h
    · exact nomatch h
    · rename_i outputs' s hwork
      obtain rfl := Except.ok.inj h
      exact exists_of_mem_work (congrArg Prod.fst hwork) hy
  · rw [if_neg hone, Except.ok.injEq] at h
    obtain ⟨slice, hslice, x, hx, hs⟩ := exists_of_mem_workAll (h ▸ hy)
    exact ⟨x, Partition.subset_of_mem_cut hslice hx, hs⟩

end

end Pool

/-! ## Steps known beforehand -/

/-- The steps of a task are known beforehand: as long as the state is ready for the inputs that are
still to come, the next step is the one of the next input. -/
structure Task.Foreseen (task : Task σ α β) (step : α → Step β) (Ready : List α → σ → Prop) :
    Prop where
  step_eq : ∀ {x xs s}, Ready (x :: xs) s → (task x s).1 = step x
  next : ∀ {x xs s}, Ready (x :: xs) s → Ready xs (task x s).2

/-- The steps of a task that looks at no state are known. -/
theorem Task.foreseen_of_forall {task : Task σ α β} {step : α → Step β}
    (h : ∀ x s, (task x s).1 = step x) : task.Foreseen step fun _ _ => True where
  step_eq _ := h _ _
  next _ := trivial

/-- Behind all inputs the state is ready. -/
theorem Task.Foreseen.ready_foldl {task : Task σ α β} {step : α → Step β}
    {Ready : List α → σ → Prop} (h : task.Foreseen step Ready) {xs : List α} {s : σ}
    (hready : Ready xs s) : Ready [] (xs.foldl (fun s x => (task x s).2) s) := by
  induction xs generalizing s with
  | nil => exact hready
  | cons x xs ih => exact ih (h.next hready)

/-- Nothing goes wrong in a step: it is done, and says nothing that counts as an error. -/
structure Step.Clean (step : Step β) : Prop where
  done : step.ending = .done
  quiet : ∀ m ∈ step.messages, m.level ≠ .error

/-- So it is in a step that only puts something out. -/
theorem Step.clean_outputs (outputs : List β) : Step.Clean { outputs } :=
  ⟨rfl, by simp⟩

namespace Pool

/-- What a worker puts out for its slice: the outputs of its inputs up to the first one that is not
done, or the panic that tears it down there. -/
def emitted (step : α → Step β) : List α → Except Panic (List β)
  | [] => .ok []
  | x :: xs =>
      match (step x).ending with
      | .panicked p => .error p
      | .failed _ => .ok (step x).outputs
      | .done => (emitted step xs).map ((step x).outputs ++ ·)

/-- What is left of the outputs of a worker. -/
def collected (outputs : Except Panic (List β)) : List β := outputs.toOption.getD []

/-- What several workers put out, one slice after the other. -/
def gathered (step : α → Step β) (slices : List (List α)) : List β :=
  slices.flatMap fun slice => collected (emitted step slice)

/-- A worker puts out a part of the outputs of its slice. -/
theorem sublist_emitted (step : α → Step β) (xs : List α) :
    (collected (emitted step xs)).Sublist (xs.flatMap fun x => (step x).outputs) := by
  induction xs with
  | nil => exact List.Sublist.refl _
  | cons x xs ih =>
    rw [emitted, List.flatMap_cons]
    split
    · exact List.nil_sublist _
    · exact List.sublist_append_left _ _
    · cases hrest : emitted step xs with
      | error p => exact List.nil_sublist _
      | ok rest =>
        rw [hrest] at ih
        exact ih.append_left _

/-- A worker in whose slice no step panics is not torn down. -/
theorem exists_emitted_eq_ok {step : α → Step β} {xs : List α}
    (h : ∀ x ∈ xs, ∀ p, (step x).ending ≠ .panicked p) :
    ∃ outputs, emitted step xs = .ok outputs := by
  induction xs with
  | nil => exact ⟨[], rfl⟩
  | cons x xs ih =>
    rw [List.forall_mem_cons] at h
    rw [emitted]
    cases hending : (step x).ending with
    | panicked p => exact absurd hending (h.1 p)
    | failed e => exact ⟨(step x).outputs, rfl⟩
    | done =>
      obtain ⟨rest, hrest⟩ := ih h.2
      exact ⟨(step x).outputs ++ rest, by rw [hrest]; rfl⟩

/-- Where every input gives one output at most, one that gives none leaves too few. -/
theorem length_flatMap_outputs_lt {step : α → Step β} {xs : List α}
    (hle : ∀ x ∈ xs, (step x).outputs.length ≤ 1) {x : α} (hx : x ∈ xs)
    (hnone : (step x).outputs = []) :
    (xs.flatMap fun x => (step x).outputs).length < xs.length := by
  have hone : (xs.map fun _ => 1).sum = xs.length := by simp
  rw [List.length_flatMap, ← hone]
  refine List.sum_lt_sum _ _ hle ⟨x, hx, ?_⟩
  rw [hnone]
  exact Nat.zero_lt_one

/-- Several workers put out a part of the outputs of all inputs. -/
theorem sublist_gathered (step : α → Step β) (slices : List (List α)) :
    (gathered step slices).Sublist (slices.flatten.flatMap fun x => (step x).outputs) := by
  induction slices with
  | nil => exact List.Sublist.refl _
  | cons slice slices ih =>
    rw [gathered, List.flatMap_cons, List.flatten_cons, List.flatMap_append]
    exact (sublist_emitted step slice).append ih

/-! ## Stages in which nothing goes wrong -/

section

variable (label : String) (total : Nat) {task : Task σ α β} {step : α → Step β}
  {Ready : List α → σ → Prop} (hforeseen : task.Foreseen step Ready)

include hforeseen

/-- If nothing goes wrong, a worker puts out all outputs of its slice and leaves the state behind
all of its steps. -/
theorem work_of_clean {xs rest : List α} (shared : Shared σ)
    (hready : Ready (xs ++ rest) shared.state) (hclean : ∀ x ∈ xs, (step x).Clean) :
    ∃ after, work label total task xs shared = (.ok (xs.flatMap fun x => (step x).outputs), after) ∧
      after.state = xs.foldl (fun s x => (task x s).2) shared.state ∧ Ready rest after.state ∧
      after.log.errors = shared.log.errors := by
  induction xs generalizing shared with
  | nil => exact ⟨shared, rfl, rfl, hready, rfl⟩
  | cons x xs ih =>
    rw [List.forall_mem_cons] at hclean
    obtain ⟨⟨hdone, hquiet⟩, hclean⟩ := hclean
    have hstep : (task x shared.state).1 = step x := hforeseen.step_eq hready
    let log := shared.log.addAll (step x).messages
    obtain ⟨after, hwork, hstate, hrest, herrors⟩ := ih
      { done := shared.done + 1, log := log.progress label (shared.done + 1) total,
        state := (task x shared.state).2 } (hforeseen.next hready) hclean
    refine ⟨after, ?_, hstate, hrest, ?_⟩
    · rw [work]
      simp only [hstep, hdone]
      rw [hwork]
      rfl
    · have hnone : (step x).messages.countP (·.level = .error) = 0 := by simpa using hquiet
      rw [herrors, Log.errors_progress, Log.errors_addAll, hnone, Nat.add_zero]

/-- If nothing goes wrong, several workers do the same as one that has all of their slices. -/
theorem workAll_of_clean {slices : List (List α)} (shared : Shared σ)
    (hready : Ready slices.flatten shared.state) (hclean : ∀ x ∈ slices.flatten, (step x).Clean) :
    ∃ after, workAll label total task slices shared =
        (slices.flatten.flatMap fun x => (step x).outputs, after) ∧
      after.state = slices.flatten.foldl (fun s x => (task x s).2) shared.state ∧
      after.log.errors = shared.log.errors := by
  induction slices generalizing shared with
  | nil => exact ⟨shared, rfl, rfl, rfl⟩
  | cons slice slices ih =>
    rw [List.flatten_cons, List.forall_mem_append] at hclean
    obtain ⟨between, hwork, hstate, hrest, herrors⟩ :=
      work_of_clean label total hforeseen shared hready hclean.1
    obtain ⟨after, hothers, hstate', herrors'⟩ := ih between hrest hclean.2
    refine ⟨after, ?_, ?_, herrors'.trans herrors⟩
    · rw [workAll, hwork]
      dsimp only
      rw [hothers, List.flatten_cons, List.flatMap_append]
    · rw [hstate', hstate, List.flatten_cons, List.foldl_append]

/-- **A stage in which nothing goes wrong** puts out the outputs of all inputs in their order and
leaves the state behind all steps, however many workers there are. -/
theorem execute_of_clean {workers : Nat} (hworkers : workers ≠ 0) {inputs : List α} (log : Log)
    {state : σ} (hready : Ready inputs state) (hclean : ∀ x ∈ inputs, (step x).Clean) :
    ∃ after, execute label workers task inputs log state =
        (.ok (inputs.flatMap fun x => (step x).outputs), after,
          inputs.foldl (fun s x => (task x s).2) state) ∧
      after.errors = log.errors := by
  let shared : Shared σ :=
    { log := log.debug s!"{label} ({inputs.length} items, {workers} workers)", state }
  have hclose : ∀ finished : Log,
      (close label inputs.length finished).errors = finished.errors := by
    intro finished
    rw [close, Log.errors_debug]
    split
    · exact Log.errors_progress ..
    · rfl
  rw [execute, if_neg hworkers]
  -- A single worker takes all inputs, several take slices; joined, the slices are all inputs again.
  by_cases hone : workers = 1
  · have hready' : Ready (inputs ++ []) shared.state := by rwa [List.append_nil]
    obtain ⟨after, hwork, hstate, -, herrors⟩ :=
      work_of_clean label inputs.length hforeseen shared hready' hclean
    rw [if_pos hone, hwork]
    refine ⟨close label inputs.length after.log, ?_, ?_⟩
    · rw [← hstate]
    · rw [hclose, herrors, Log.errors_debug]
  · have hready' : Ready (Partition.slices workers inputs).flatten shared.state := by
      rwa [Partition.flatten_slices]
    obtain ⟨after, hwork, hstate, herrors⟩ :=
      workAll_of_clean label inputs.length hforeseen shared hready'
        (by rwa [Partition.flatten_slices])
    rw [Partition.flatten_slices] at hwork hstate
    rw [if_neg hone, hwork]
    refine ⟨close label inputs.length after.log, ?_, ?_⟩
    · rw [← hstate]
    · rw [hclose, herrors, Log.errors_debug]

end

/-! ## Stages in which something may go wrong -/

section

variable (label : String) (total : Nat) {task : Task σ α β} {step : α → Step β}
  {Ready : List α → σ → Prop} (hforeseen : task.Foreseen step Ready)
  (hskip : ∀ {x xs s}, Ready (x :: xs) s → Ready xs s)

include hskip

/-- Inputs may be passed over one after the other. -/
theorem skip_append {xs rest : List α} {s : σ} (hready : Ready (xs ++ rest) s) : Ready rest s := by
  induction xs with
  | nil => exact hready
  | cons x xs ih => exact ih (hskip hready)

include hforeseen

/-- Where steps are known, so is what a worker puts out; the inputs behind its slice stay as they
were. -/
theorem work_eq {xs rest : List α} (shared : Shared σ) (hready : Ready (xs ++ rest) shared.state) :
    (work label total task xs shared).1 = emitted step xs ∧
      Ready rest (work label total task xs shared).2.state := by
  induction xs generalizing shared with
  | nil => exact ⟨rfl, hready⟩
  | cons x xs ih =>
    have hnext : Ready (xs ++ rest) (task x shared.state).2 := hforeseen.next hready
    rw [work, emitted, ← hforeseen.step_eq hready]
    cases hending : (task x shared.state).1.ending with
    | panicked p =>
      simp only [hending]
      exact ⟨trivial, skip_append hskip hnext⟩
    | failed e =>
      simp only [hending]
      exact ⟨trivial, skip_append hskip hnext⟩
    | done =>
      let log := shared.log.addAll (task x shared.state).1.messages
      obtain ⟨houtputs, hrest⟩ := ih
        { done := shared.done + 1, log := log.progress label (shared.done + 1) total,
          state := (task x shared.state).2 } hnext
      simp only [hending]
      exact ⟨congrArg _ houtputs, hrest⟩

/-- Where steps are known, so is what several workers put out. -/
theorem workAll_eq {slices : List (List α)} (shared : Shared σ)
    (hready : Ready slices.flatten shared.state) :
    (workAll label total task slices shared).1 = gathered step slices := by
  induction slices generalizing shared with
  | nil => rfl
  | cons slice slices ih =>
    obtain ⟨houtputs, hrest⟩ := work_eq label total hforeseen hskip shared hready
    rw [workAll, gathered, List.flatMap_cons, ← houtputs]
    have hothers := ih _ hrest
    cases hwork : (work label total task slice shared).1 with
    | error p =>
      simp only [hwork]
      exact hothers
    | ok outputs =>
      simp only [hwork]
      exact congrArg _ hothers

/-- **What a stage puts out**, where steps are known: a single worker the outputs of its inputs, or
the panic that tears it down; several workers what they put out slice by slice. -/
theorem execute_eq {workers : Nat} (hworkers : workers ≠ 0) {inputs : List α} {log : Log}
    {state : σ} (hready : Ready inputs state) :
    (execute label workers task inputs log state).1 =
      if workers = 1 then emitted step inputs
      else .ok (gathered step (Partition.slices workers inputs)) := by
  rw [execute, if_neg hworkers]
  by_cases hone : workers = 1
  · rw [if_pos hone, if_pos hone]
    have hready' : Ready (inputs ++ []) state := by rwa [List.append_nil]
    obtain ⟨hwork, -⟩ := work_eq label inputs.length hforeseen hskip
      { log := log.debug s!"{label} ({inputs.length} items, {workers} workers)", state } hready'
    rw [← hwork]
    split
    · rename_i heq
      rw [heq]
    · rename_i heq
      rw [heq]
  · rw [if_neg hone, if_neg hone]
    have hready' : Ready (Partition.slices workers inputs).flatten state := by
      rwa [Partition.flatten_slices]
    rw [← workAll_eq label inputs.length hforeseen hskip
      { log := log.debug s!"{label} ({inputs.length} items, {workers} workers)", state } hready']

/-- A stage in which no step panics is not torn down. -/
theorem exists_execute_eq_ok {workers : Nat} (hworkers : workers ≠ 0) {inputs : List α} {log : Log}
    {state : σ} (hready : Ready inputs state)
    (hcalm : ∀ x ∈ inputs, ∀ p, (step x).ending ≠ .panicked p) :
    ∃ outputs, (execute label workers task inputs log state).1 = .ok outputs := by
  rw [execute_eq label hforeseen hskip hworkers hready]
  by_cases hone : workers = 1
  · rw [if_pos hone]
    exact exists_emitted_eq_ok hcalm
  · rw [if_neg hone]
    exact ⟨_, rfl⟩

/-- **A stage puts out a part of what its inputs give**, in their order, whatever goes wrong. -/
theorem sublist_of_execute {workers : Nat} (hworkers : workers ≠ 0) {inputs : List α} {log : Log}
    {state : σ} (hready : Ready inputs state) {outputs : List β}
    (h : (execute label workers task inputs log state).1 = .ok outputs) :
    outputs.Sublist (inputs.flatMap fun x => (step x).outputs) := by
  rw [execute_eq label hforeseen hskip hworkers hready] at h
  by_cases hone : workers = 1
  · rw [if_pos hone] at h
    have hsublist := sublist_emitted step inputs
    rwa [h] at hsublist
  · rw [if_neg hone, Except.ok.injEq] at h
    have hsublist := sublist_gathered step (Partition.slices workers inputs)
    rwa [Partition.flatten_slices, h] at hsublist

end

/-! ## Stages in place -/

section

variable {work : α → Step β × α} {xs : List α}

/-- What happens at a position. -/
def stepAt (work : α → Step β × α) (xs : List α) (position : Nat) : Step β :=
  match xs[position]? with
  | none => {}
  | some x => (work x).1

/-- The positions that are still to come hold what they held at first, each of them once. -/
def Untouched (xs : List α) (positions : List Nat) (ys : List α) : Prop :=
  positions.Nodup ∧ ∀ position ∈ positions, ys[position]? = xs[position]?

/-- A position is not touched before its turn, so its step is known. -/
theorem foreseen_atPosition : (atPosition work).Foreseen (stepAt work xs) (Untouched xs) where
  step_eq := by
    rintro position positions ys ⟨-, hsame⟩
    rw [atPosition, stepAt, hsame position List.mem_cons_self]
    cases xs[position]? <;> rfl
  next := by
    rintro position positions ys ⟨hnodup, hsame⟩
    rw [List.nodup_cons] at hnodup
    rw [List.forall_mem_cons] at hsame
    refine ⟨hnodup.2, fun other hother => ?_⟩
    have hne : position ≠ other := fun heq => hnodup.1 (heq ▸ hother)
    rw [← hsame.2 other hother, atPosition]
    cases ys[position]? with
    | none => rfl
    | some y => exact List.getElem?_set_ne hne

theorem untouched_skip {position : Nat} {positions : List Nat} {ys : List α}
    (h : Untouched xs (position :: positions) ys) : Untouched xs positions ys :=
  ⟨(List.nodup_cons.mp h.1).2, fun other hother => h.2 other (List.mem_cons_of_mem _ hother)⟩

theorem untouched_range : Untouched xs (List.range xs.length) xs :=
  ⟨List.nodup_range, fun _ _ => rfl⟩

/-- The outputs at all positions are those of the elements. -/
theorem flatMap_stepAt :
    ((List.range xs.length).flatMap fun position => (stepAt work xs position).outputs) =
      xs.flatMap fun x => (work x).1.outputs := by
  have hmap : (List.range xs.length).map (stepAt work xs) = xs.map fun x => (work x).1 := by
    refine List.ext_getElem (by simp) fun position hleft hright => ?_
    have hlt : position < xs.length := by simpa using hright
    simp [stepAt, hlt]
  calc ((List.range xs.length).flatMap fun position => (stepAt work xs position).outputs)
      = ((List.range xs.length).map (stepAt work xs)).flatMap Step.outputs := by
        rw [List.flatMap_map]
    _ = xs.flatMap fun x => (work x).1.outputs := by rw [hmap, List.flatMap_map]

/-- Going through the first positions changes the elements there, and no other. -/
theorem getElem?_foldl_atPosition (work : α → Step β × α) (xs : List α) (count position : Nat) :
    ((List.range count).foldl (fun ys i => (atPosition work i ys).2) xs)[position]? =
      if position < count then xs[position]?.map fun x => (work x).2 else xs[position]? := by
  induction count generalizing position with
  | zero => rfl
  | succ count ih =>
    -- The work on the next element finds it as it was, and leaves all others alone.
    rw [List.range_succ, List.foldl_append, List.foldl_cons, List.foldl_nil, atPosition, ih count,
      if_neg (Nat.lt_irrefl count)]
    generalize (List.range count).foldl (fun ys i => (atPosition work i ys).2) xs = ys at ih
    cases hx : xs[count]? with
    | none =>
      dsimp only
      rw [ih position]
      by_cases heq : position = count
      · subst heq
        simp [hx]
      · have hlt : position < count ↔ position < count + 1 := by omega
        simp only [hlt]
    | some x =>
      dsimp only
      by_cases heq : position = count
      · subst heq
        have hsome : ys[position]? = some x := by rw [ih, if_neg (Nat.lt_irrefl _), hx]
        obtain ⟨hlt, -⟩ := List.getElem?_eq_some_iff.mp hsome
        rw [List.getElem?_set_self hlt, if_pos (Nat.lt_succ_self _), hx]
        rfl
      · have hlt : position < count ↔ position < count + 1 := by omega
        rw [List.getElem?_set_ne (Ne.symm heq), ih position]
        simp only [hlt]

/-- Going through all positions changes every element once. -/
theorem foldl_atPosition (work : α → Step β × α) (xs : List α) :
    (List.range xs.length).foldl (fun ys i => (atPosition work i ys).2) xs =
      xs.map fun x => (work x).2 := by
  refine List.ext_getElem? fun position => ?_
  rw [getElem?_foldl_atPosition, List.getElem?_map]
  by_cases hlt : position < xs.length
  · rw [if_pos hlt]
  · rw [if_neg hlt, List.getElem?_eq_none (by omega)]
    rfl

/-- **A stage in place in which nothing goes wrong** changes every element once and puts out the
outputs of all of them in their order, however many workers there are. -/
theorem executeInPlace_of_clean (label : String) {workers : Nat} (hworkers : workers ≠ 0)
    (log : Log) (hclean : ∀ x ∈ xs, (work x).1.Clean) :
    ∃ after, executeInPlace label workers work xs log =
        (.ok (xs.flatMap fun x => (work x).1.outputs), after, xs.map fun x => (work x).2) ∧
      after.errors = log.errors := by
  have hsteps : ∀ position ∈ List.range xs.length, (stepAt work xs position).Clean := by
    intro position hposition
    have hlt : position < xs.length := List.mem_range.mp hposition
    rw [stepAt, List.getElem?_eq_getElem hlt]
    exact hclean _ (List.getElem_mem hlt)
  obtain ⟨after, hexecute, herrors⟩ :=
    execute_of_clean label foreseen_atPosition hworkers log untouched_range hsteps
  refine ⟨after, ?_, herrors⟩
  rw [executeInPlace, hexecute, flatMap_stepAt, foldl_atPosition]

/-- A stage in place in which no step panics is not torn down. -/
theorem exists_executeInPlace_eq_ok (label : String) {workers : Nat} (hworkers : workers ≠ 0)
    {log : Log} (hcalm : ∀ x ∈ xs, ∀ p, (work x).1.ending ≠ .panicked p) :
    ∃ outputs, (executeInPlace label workers work xs log).1 = .ok outputs := by
  refine exists_execute_eq_ok label foreseen_atPosition untouched_skip hworkers untouched_range ?_
  intro position hposition
  have hlt : position < xs.length := List.mem_range.mp hposition
  rw [stepAt, List.getElem?_eq_getElem hlt]
  exact hcalm _ (List.getElem_mem hlt)

/-- A stage in place puts out no more than its elements give, whatever goes wrong. -/
theorem length_le_of_executeInPlace {label : String} {workers : Nat} (hworkers : workers ≠ 0)
    {log : Log} {outputs : List β}
    (h : (executeInPlace label workers work xs log).1 = .ok outputs) :
    outputs.length ≤ (xs.flatMap fun x => (work x).1.outputs).length := by
  rw [← flatMap_stepAt]
  have hsublist := sublist_of_execute label foreseen_atPosition untouched_skip hworkers
    untouched_range h
  exact hsublist.length_le

end

end Pool

end MutationLab
