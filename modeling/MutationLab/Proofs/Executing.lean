import Mathlib.Logic.Relation
import MutationLab.Proofs.Pools

/-! # What a stage does with its slices

A worker comes to the inputs of its slice up to the first one that is not done (`Pool.reached`). It
puts out what these inputs give, unless the last of them panics (`Pool.kept`), and it reports which
of them fails (`Pool.reports`). Where no step panics, it complains of the first input that fails and
of nothing else (`Pool.complaints`). So a stage is known from its slices: what it puts out, which
inputs it has come to and which errors it has logged (`Pool.execute_processes_slices`). Several
workers may take turns in any order (`Crew.Takes`); this changes neither what they put out nor how
many errors there are. -/

namespace MutationLab

/-! ## Logged errors -/

namespace Log

/-- The errors that are captured, oldest first. -/
def complaints (log : Log) : List Message := log.messages.filter (·.level = .error)

/-- Between two moments a log has taken certain errors, and else nothing that counts as one. -/
structure Gained (before after : Log) (ms : List Message) : Prop where
  capturing_eq : after.capturing = before.capturing
  errors_eq : after.errors = before.errors + ms.length
  complaints_eq : after.complaints = before.complaints ++ if before.capturing then ms else []

namespace Gained

variable {first second third : Log} {ms more : List Message}

theorem refl (log : Log) : Gained log log [] := ⟨rfl, rfl, by simp⟩

theorem trans (h : Gained first second ms) (h' : Gained second third more) :
    Gained first third (ms ++ more) where
  capturing_eq := h'.capturing_eq.trans h.capturing_eq
  errors_eq := by
    rw [h'.errors_eq, h.errors_eq, List.length_append, Nat.add_assoc]
  complaints_eq := by
    rw [h'.complaints_eq, h.complaints_eq, h.capturing_eq, List.append_assoc]
    cases first.capturing <;> rfl

/-- A message is gained if it is an error. -/
theorem add (log : Log) (m : Message) :
    Gained log (log.add m) ([m].filter (·.level = .error)) := by
  obtain ⟨level, text⟩ := m
  obtain ⟨capturing, latest, warnings, errors⟩ := log
  cases capturing <;> cases level <;>
    exact ⟨rfl, rfl, by simp [Log.add, capture, complaints, messages]⟩

/-- Of several messages, the errors are gained. -/
theorem addAll (log : Log) (ms : List Message) :
    Gained log (log.addAll ms) (ms.filter (·.level = .error)) := by
  induction ms generalizing log with
  | nil => exact refl log
  | cons m ms ih =>
    have hms : (m :: ms).filter (·.level = .error) =
        [m].filter (·.level = .error) ++ ms.filter (·.level = .error) := by
      rw [← List.filter_append, List.singleton_append]
    rw [hms]
    exact (add log m).trans (ih (log.add m))

theorem debug (log : Log) (text : String) : Gained log (log.debug text) [] := add log ⟨.debug, text⟩

theorem error (log : Log) (text : String) : Gained log (log.error text) [⟨.error, text⟩] :=
  add log ⟨.error, text⟩

theorem progress (log : Log) (label : String) (done total : Nat) :
    Gained log (log.progress label done total) [] := by
  unfold Log.progress
  split
  · exact add log ⟨.debug, _⟩
  · exact refl log

end Gained

end Log

/-! ## Steps that fail -/

namespace Step

/-- Whether the input is done with. -/
def isDone (step : Step β) : Bool := step.ending = .done

/-- Why the input fails. -/
def failure? (step : Step β) : Option TaskError :=
  match step.ending with
  | .failed e => some e
  | _ => none

/-- The panic that the input ends with. -/
def panic? (step : Step β) : Option Panic :=
  match step.ending with
  | .panicked p => some p
  | _ => none

/-- The errors that the task logs by itself. -/
def errors (step : Step β) : List Message := step.messages.filter (·.level = .error)

end Step

namespace Pool

variable {step : α → Step β}

/-- The inputs that a worker comes to: those of its slice up to the first one that is not done. -/
def reached (step : α → Step β) (slice : List α) : List α :=
  (slice.takeWhile fun x => (step x).isDone) ++ (slice.dropWhile fun x => (step x).isDone).take 1

/-- The error about an input that fails. -/
def complaint (label : String) (e : TaskError) : Message := ⟨.error, s!"{label}: {e.message}"⟩

/-- The errors that a worker logs for its slice: those of its task, and one for the first input that
fails. -/
def complaints (label : String) (step : α → Step β) (slice : List α) : List Message :=
  ((reached step slice).flatMap fun x => (step x).errors) ++
    (slice.findSome? fun x => (step x).failure?).toList.map (complaint label)

/-- The panic that tears down the worker of a slice. -/
def panic? (step : α → Step β) (slice : List α) : Option Panic :=
  (reached step slice).findSome? fun x => (step x).panic?

/-- What is kept of the outputs for a slice: nothing, if its worker is torn down. -/
def kept (step : α → Step β) (slice : List α) : List β :=
  if (panic? step slice).isSome then [] else (reached step slice).flatMap fun x => (step x).outputs

/-- The errors that a worker logs for the inputs that it comes to. -/
def reports (label : String) (step : α → Step β) (slice : List α) : List Message :=
  (reached step slice).flatMap fun x =>
    (step x).errors ++ (step x).failure?.toList.map (complaint label)

/-- The error about a worker that is torn down. -/
def lost (label : String) : Message := ⟨.error, s!"{label}: worker panicked"⟩

@[simp] theorem reached_nil : reached step [] = [] := rfl

theorem reached_cons_of_done {x : α} {xs : List α} (h : (step x).ending = .done) :
    reached step (x :: xs) = x :: reached step xs := by
  simp [reached, Step.isDone, h]

theorem reached_cons_of_ne {x : α} {xs : List α} (h : (step x).ending ≠ .done) :
    reached step (x :: xs) = [x] := by
  simp [reached, Step.isDone, h]

/-- A worker comes to inputs of its slice. -/
theorem reached_subset (xs : List α) : reached step xs ⊆ xs := by
  refine List.append_subset.mpr ⟨(List.takeWhile_sublist _).subset, ?_⟩
  exact List.Subset.trans (List.take_subset _ _) (List.dropWhile_sublist _).subset

/-- If everything is done, a worker comes to everything. -/
theorem reached_eq_self {xs : List α} (h : ∀ x ∈ xs, (step x).ending = .done) :
    reached step xs = xs := by
  induction xs with
  | nil => rfl
  | cons x xs ih =>
    rw [List.forall_mem_cons] at h
    rw [reached_cons_of_done h.1, ih h.2]

@[simp] theorem panic?_nil : panic? step [] = none := rfl

theorem panic?_cons_of_done {x : α} {xs : List α} (h : (step x).ending = .done) :
    panic? step (x :: xs) = panic? step xs := by
  simp [panic?, reached_cons_of_done h, Step.panic?, h]

theorem panic?_cons_of_ne {x : α} {xs : List α} (h : (step x).ending ≠ .done) :
    panic? step (x :: xs) = (step x).panic? := by
  rw [panic?, reached_cons_of_ne h, List.findSome?_singleton]

/-- No worker is torn down in a slice without panics. -/
theorem panic?_of_calm {xs : List α} (h : ∀ x ∈ xs, ∀ p, (step x).ending ≠ .panicked p) :
    panic? step xs = none := by
  refine List.findSome?_eq_none_iff.mpr fun x hx => ?_
  cases hending : (step x).ending with
  | panicked p => exact absurd hending (h x (reached_subset xs hx) p)
  | done | failed e => simp [Step.panic?, hending]

@[simp] theorem reports_nil (label : String) : reports label step [] = [] := rfl

theorem reports_cons_of_done {label : String} {x : α} {xs : List α}
    (h : (step x).ending = .done) :
    reports label step (x :: xs) = (step x).errors ++ reports label step xs := by
  simp [reports, reached_cons_of_done h, Step.failure?, h]

theorem reports_cons_of_ne {label : String} {x : α} {xs : List α} (h : (step x).ending ≠ .done) :
    reports label step (x :: xs) =
      (step x).errors ++ (step x).failure?.toList.map (complaint label) := by
  rw [reports, reached_cons_of_ne h, List.flatMap_singleton]

theorem complaints_cons_of_done {label : String} {x : α} {xs : List α}
    (h : (step x).ending = .done) :
    complaints label step (x :: xs) = (step x).errors ++ complaints label step xs := by
  simp [complaints, reached_cons_of_done h, Step.failure?, h]

theorem complaints_cons_of_failed {label : String} {x : α} {xs : List α} {e : TaskError}
    (h : (step x).ending = .failed e) :
    complaints label step (x :: xs) = (step x).errors ++ [complaint label e] := by
  have hne : (step x).ending ≠ .done := by simp [h]
  simp [complaints, reached_cons_of_ne hne, Step.failure?, h]

/-- Without panics, a worker reports what is to complain of. -/
theorem reports_of_calm {label : String} {xs : List α}
    (h : ∀ x ∈ xs, ∀ p, (step x).ending ≠ .panicked p) :
    reports label step xs = complaints label step xs := by
  induction xs with
  | nil => rfl
  | cons x xs ih =>
    rw [List.forall_mem_cons] at h
    cases hending : (step x).ending with
    | panicked p => exact absurd hending (h.1 p)
    | failed e =>
      rw [reports_cons_of_ne (by simp [hending]), complaints_cons_of_failed hending]
      simp [Step.failure?, hending]
    | done => rw [reports_cons_of_done hending, complaints_cons_of_done hending, ih h.2]

/-- What a worker puts out, by the inputs that it comes to. -/
theorem emitted_eq (step : α → Step β) (xs : List α) :
    emitted step xs =
      match panic? step xs with
      | some p => .error p
      | none => .ok ((reached step xs).flatMap fun x => (step x).outputs) := by
  induction xs with
  | nil => rfl
  | cons x xs ih =>
    rw [emitted]
    cases hending : (step x).ending with
    | panicked p =>
      have hne : (step x).ending ≠ .done := by simp [hending]
      simp [panic?_cons_of_ne hne, Step.panic?, hending]
    | failed e =>
      have hne : (step x).ending ≠ .done := by simp [hending]
      simp [panic?_cons_of_ne hne, reached_cons_of_ne hne, Step.panic?, hending]
    | done =>
      dsimp only
      rw [ih, panic?_cons_of_done hending, reached_cons_of_done hending, List.flatMap_cons]
      cases panic? step xs <;> rfl

/-- **A worker logs one error for its slice if some input fails**, beside those of its task. -/
theorem length_complaints (label : String) (step : α → Step β) (slice : List α) :
    (complaints label step slice).length =
      ((reached step slice).map fun x => (step x).errors.length).sum +
        if slice.any fun x => (step x).failure?.isSome then 1 else 0 := by
  rw [complaints, List.length_append, List.length_flatMap, List.length_map,
    ← List.isSome_findSome?]
  cases slice.findSome? fun x => (step x).failure? <;> rfl

/-- Of several slices, each adds one error if some input of it fails. -/
theorem length_flatMap_complaints (label : String) (step : α → Step β) (slices : List (List α)) :
    (slices.flatMap (complaints label step)).length =
      ((slices.flatMap (reached step)).map fun x => (step x).errors.length).sum +
        slices.countP fun slice => slice.any fun x => (step x).failure?.isSome := by
  induction slices with
  | nil => rfl
  | cons slice slices ih =>
    rw [List.flatMap_cons, List.length_append, ih, length_complaints, List.flatMap_cons,
      List.map_append, List.sum_append, List.countP_cons]
    omega

/-! A worker adds to the log what it complains of, and notes its progress. -/

theorem gained_done (label : String) (log : Log) (x : α) (done total : Nat) :
    log.Gained ((log.addAll (step x).messages).progress label done total) (step x).errors := by
  have hgained := (Log.Gained.addAll log (step x).messages).trans (.progress _ label done total)
  rwa [List.append_nil] at hgained

theorem gained_failed (label : String) (log : Log) (x : α) (e : TaskError) :
    log.Gained ((log.addAll (step x).messages).error s!"{label}: {e.message}")
      ((step x).errors ++ [complaint label e]) :=
  (Log.Gained.addAll log (step x).messages).trans (.error _ _)

/-- The end of a stage is no error. -/
theorem gained_close (label : String) (total : Nat) (log : Log) :
    log.Gained (close label total log) [] := by
  unfold close
  split
  · exact (Log.Gained.progress log label 0 0).trans (.debug _ _)
  · exact .debug _ _

/-! ## Workers one after the other -/

section

variable (label : String) (total : Nat) {task : Task σ α β} (hstep : ∀ x s, (task x s).1 = step x)

include hstep

/-- What a worker does with its slice. -/
theorem work_eq_emitted (xs : List α) (shared : Shared σ) :
    ∃ after, work label total task xs shared = (emitted step xs, after) ∧
      after.state = (reached step xs).foldl (fun s x => (task x s).2) shared.state ∧
      shared.log.Gained after.log (reports label step xs) := by
  induction xs generalizing shared with
  | nil => exact ⟨shared, rfl, rfl, .refl _⟩
  | cons x xs ih =>
    -- An input that fails or panics has changed the state like any other, and it is the last one.
    unfold work emitted
    cases hending : (step x).ending with
    | panicked p =>
      simp only [hstep, hending]
      have hne : (step x).ending ≠ .done := by simp [hending]
      refine ⟨_, rfl, by rw [reached_cons_of_ne hne]; rfl, ?_⟩
      rw [reports_cons_of_ne hne, Step.failure?, hending]
      exact (Log.Gained.addAll shared.log (step x).messages).trans (.refl _)
    | failed e =>
      simp only [hstep, hending]
      have hne : (step x).ending ≠ .done := by simp [hending]
      refine ⟨_, rfl, by rw [reached_cons_of_ne hne]; rfl, ?_⟩
      rw [reports_cons_of_ne hne, Step.failure?, hending]
      exact gained_failed label shared.log x e
    | done =>
      simp only [hstep, hending]
      obtain ⟨after, hwork, hstate, hlog⟩ := ih
        { done := shared.done + 1
          log := (shared.log.addAll (step x).messages).progress label (shared.done + 1) total
          state := (task x shared.state).2 }
      refine ⟨after, by rw [hwork], ?_, ?_⟩
      · rw [hstate, reached_cons_of_done hending, List.foldl_cons]
      · rw [reports_cons_of_done hending]
        exact (gained_done label shared.log x (shared.done + 1) total).trans hlog

/-- What several workers do with their slices. -/
theorem workAll_eq_kept (slices : List (List α)) (shared : Shared σ) :
    ∃ after, workAll label total task slices shared = (slices.flatMap (kept step), after) ∧
      after.state = (slices.flatMap (reached step)).foldl (fun s x => (task x s).2) shared.state ∧
      shared.log.Gained after.log (slices.flatMap (reports label step) ++
        List.replicate (slices.countP fun slice => (panic? step slice).isSome) (lost label)) := by
  induction slices generalizing shared with
  | nil => exact ⟨shared, rfl, rfl, .refl _⟩
  | cons slice slices ih =>
    obtain ⟨between, hwork, hstate, hlog⟩ := work_eq_emitted label total hstep slice shared
    obtain ⟨after, hothers, hstate', hlog'⟩ := ih between
    have hstates : after.state = ((slice :: slices).flatMap (reached step)).foldl
        (fun s x => (task x s).2) shared.state := by
      rw [hstate', hstate, List.flatMap_cons, List.foldl_append]
    have hlogs := hlog.trans hlog'
    rw [← List.append_assoc, ← List.flatMap_cons] at hlogs
    unfold workAll
    rw [hwork, emitted_eq]
    dsimp only
    rw [hothers, List.flatMap_cons, kept]
    cases hpanic : panic? step slice with
    | none =>
      refine ⟨after, rfl, hstates, ?_⟩
      rwa [List.countP_cons_of_neg (by simp [hpanic])]
    | some p =>
      -- That the worker was torn down is logged behind the others.
      refine ⟨_, rfl, hstates, ?_⟩
      rw [List.countP_cons_of_pos (by simp [hpanic]), List.replicate_succ', ← List.append_assoc]
      exact hlogs.trans (.error _ _)

/-- What a stage does with its slices, unless it is torn down. -/
theorem execute_eq_kept {workers : Nat} (hworkers : workers ≠ 0) {inputs : List α}
    (hcontained : workers ≠ 1 ∨ panic? step inputs = none) (log : Log) (state : σ) :
    ∃ after, execute label workers task inputs log state =
        (.ok ((Partition.slices workers inputs).flatMap (kept step)), after,
          ((Partition.slices workers inputs).flatMap (reached step)).foldl
            (fun s x => (task x s).2) state) ∧
      log.Gained after ((Partition.slices workers inputs).flatMap (reports label step) ++
        List.replicate
          ((Partition.slices workers inputs).countP fun slice => (panic? step slice).isSome)
          (lost label)) := by
  let shared : Shared σ :=
    { log := log.debug s!"{label} ({inputs.length} items, {workers} workers)", state }
  have hopen : log.Gained shared.log [] := .debug log _
  unfold execute
  rw [if_neg hworkers]
  by_cases hone : workers = 1
  · -- A single worker runs in place, and its slice is everything.
    subst hone
    have hcalm : panic? step inputs = none := hcontained.resolve_left (not_not.mpr rfl)
    obtain ⟨after, hwork, hstate, hlog⟩ :=
      work_eq_emitted label inputs.length hstep inputs shared
    rw [emitted_eq, hcalm] at hwork
    rw [if_pos rfl, hwork, Partition.slices_one, List.flatMap_singleton, List.flatMap_singleton,
      List.flatMap_singleton, kept, hcalm, ← hstate]
    refine ⟨_, rfl, ?_⟩
    simpa [hcalm] using (hopen.trans hlog).trans (gained_close label inputs.length after.log)
  · obtain ⟨after, hwork, hstate, hlog⟩ :=
      workAll_eq_kept label inputs.length hstep (Partition.slices workers inputs) shared
    rw [if_neg hone, hwork, ← hstate]
    refine ⟨_, rfl, ?_⟩
    simpa using (hopen.trans hlog).trans (gained_close label inputs.length after.log)

/-- A single worker that is torn down takes the stage with it. -/
theorem execute_of_panic {inputs : List α} {p : Panic} (hpanic : panic? step inputs = some p)
    (log : Log) (state : σ) :
    ∃ after, execute label 1 task inputs log state =
        (.error p, after, (reached step inputs).foldl (fun s x => (task x s).2) state) ∧
      log.Gained after (reports label step inputs) := by
  let shared : Shared σ :=
    { log := log.debug s!"{label} ({inputs.length} items, {1} workers)", state }
  have hopen : log.Gained shared.log [] := .debug log _
  obtain ⟨after, hwork, hstate, hlog⟩ := work_eq_emitted label inputs.length hstep inputs shared
  rw [emitted_eq, hpanic] at hwork
  unfold execute
  rw [if_neg Nat.one_ne_zero, if_pos rfl, hwork, ← hstate]
  exact ⟨_, rfl, hopen.trans hlog⟩

/-- What a stage does with its slices when no input panics. -/
theorem execute_of_calm {workers : Nat} (hworkers : workers ≠ 0) {inputs : List α}
    (hcalm : ∀ x ∈ inputs, ∀ p, (step x).ending ≠ .panicked p) (log : Log) (state : σ) :
    ∃ after, execute label workers task inputs log state =
        (.ok (((Partition.slices workers inputs).flatMap (reached step)).flatMap
            fun x => (step x).outputs),
          after, ((Partition.slices workers inputs).flatMap (reached step)).foldl
            (fun s x => (task x s).2) state) ∧
      log.Gained after ((Partition.slices workers inputs).flatMap (complaints label step)) := by
  have hslices : ∀ slice ∈ Partition.slices workers inputs, ∀ x ∈ slice, ∀ p,
      (step x).ending ≠ .panicked p :=
    fun slice hslice x hx => hcalm x (Partition.subset_of_mem_cut hslice hx)
  have hnone : ∀ slice ∈ Partition.slices workers inputs, panic? step slice = none :=
    fun slice hslice => panic?_of_calm (hslices slice hslice)
  have hcount : (Partition.slices workers inputs).countP
      (fun slice => (panic? step slice).isSome) = 0 :=
    List.countP_eq_zero.mpr fun slice hslice => by simp [hnone slice hslice]
  have hkept : (Partition.slices workers inputs).flatMap (kept step) =
      ((Partition.slices workers inputs).flatMap (reached step)).flatMap
        fun x => (step x).outputs := by
    rw [List.flatMap_assoc]
    exact List.flatMap_congr fun slice hslice => by simp [kept, hnone slice hslice]
  have hreports : (Partition.slices workers inputs).flatMap (reports label step) =
      (Partition.slices workers inputs).flatMap (complaints label step) :=
    List.flatMap_congr fun slice hslice => reports_of_calm (hslices slice hslice)
  have h := execute_eq_kept label hstep hworkers (.inr (panic?_of_calm hcalm)) log state
  rwa [hcount, hkept, hreports, List.replicate_zero, List.append_nil] at h

end

end Pool

/-! ## Workers in turns -/

/-- **Steps come to an end** `Q` when before it there always is a next one, and each of them keeps
`P` and leaves less to do than there was. -/
theorem exists_end {R : σ → σ → Prop} {P Q : σ → Prop} (left : σ → Nat)
    (hnext : ∀ s, P s → ¬ Q s → ∃ t, R s t)
    (hstep : ∀ {s t}, R s t → P s → P t ∧ left t < left s) (s : σ) (hs : P s) :
    ∃ last, Relation.ReflTransGen R s last ∧ Q last := by
  -- By induction on what is left to do.
  generalize hleft : left s = n
  induction n using Nat.strongRecOn generalizing s with
  | ind n ih =>
    by_cases hend : Q s
    · exact ⟨s, .refl, hend⟩
    · obtain ⟨t, ht⟩ := hnext s hs hend
      obtain ⟨hkept, hlt⟩ := hstep ht hs
      obtain ⟨last, hlast, hend⟩ := ih (left t) (hleft ▸ hlt) t hkept rfl
      exact ⟨last, .head ht hlast, hend⟩

/-- A worker in the middle of its slice. -/
structure Worker (α β : Type) where
  /-- The inputs that it has not come to. -/
  remaining : List α
  outputs : List β := []

/-- Workers that run at the same time. They share the count of inputs done and the log. -/
structure Crew (α β : Type) where
  workers : List (Worker α β)
  done : Nat := 0
  log : Log

namespace Crew

/-- Nobody has begun. -/
def start (slices : List (List α)) (log : Log) : Crew α β where
  workers := slices.map fun slice => { remaining := slice }
  log

/-- Any one of the workers takes its next input. -/
inductive Takes (label : String) (total : Nat) (step : α → Step β) : Crew α β → Crew α β → Prop
  /-- The input is done, and the worker goes on. -/
  | done {first others : List (Worker α β)} {x : α} {xs : List α} {outputs : List β} {done : Nat}
      {log : Log} (h : (step x).ending = .done) :
      Takes label total step
        { workers := first ++ ⟨x :: xs, outputs⟩ :: others, done, log }
        { workers := first ++ ⟨xs, outputs ++ (step x).outputs⟩ :: others
          done := done + 1
          log := (log.addAll (step x).messages).progress label (done + 1) total }
  /-- The input fails, and the worker drops the rest of its slice. -/
  | failed {first others : List (Worker α β)} {x : α} {xs : List α} {outputs : List β} {done : Nat}
      {log : Log} {e : TaskError} (h : (step x).ending = .failed e) :
      Takes label total step
        { workers := first ++ ⟨x :: xs, outputs⟩ :: others, done, log }
        { workers := first ++ ⟨[], outputs ++ (step x).outputs⟩ :: others
          done
          log := (log.addAll (step x).messages).error s!"{label}: {e.message}" }

/-- Nobody has anything left to do. -/
def Finished (crew : Crew α β) : Prop := ∀ worker ∈ crew.workers, worker.remaining = []

/-- No input that is left panics. -/
def Calm (step : α → Step β) (crew : Crew α β) : Prop :=
  ∀ worker ∈ crew.workers, ∀ x ∈ worker.remaining, ∀ p, (step x).ending ≠ .panicked p

/-- What all workers have put out, joined in their order. -/
def outputs (crew : Crew α β) : List β := crew.workers.flatMap (·.outputs)

/-- What all workers will have put out in the end. -/
def promised (step : α → Step β) (crew : Crew α β) : List β :=
  crew.workers.flatMap fun worker =>
    worker.outputs ++ (Pool.reached step worker.remaining).flatMap fun x => (step x).outputs

/-- The errors that are still to come. -/
def owed (label : String) (step : α → Step β) (crew : Crew α β) : List Message :=
  crew.workers.flatMap fun worker => Pool.complaints label step worker.remaining

/-- The number of inputs that nobody has come to. -/
def left (crew : Crew α β) : Nat := (crew.workers.map (·.remaining.length)).sum

/-- Between two moments the crew logs errors that were owed, and keeps its promises. -/
structure Keeps (label : String) (step : α → Step β) (before after : Crew α β) (ms : List Message) :
    Prop where
  promised_eq : after.promised step = before.promised step
  gained : before.log.Gained after.log ms
  perm : (ms ++ after.owed label step).Perm (before.owed label step)

variable {label : String} {total : Nat} {step : α → Step β} {before between after crew : Crew α β}
  {ms more : List Message}

theorem Keeps.refl (crew : Crew α β) : Keeps label step crew crew [] :=
  ⟨rfl, .refl crew.log, .refl _⟩

theorem Keeps.trans (h : Keeps label step before between ms)
    (h' : Keeps label step between after more) : Keeps label step before after (ms ++ more) where
  promised_eq := h'.promised_eq.trans h.promised_eq
  gained := h.gained.trans h'.gained
  perm := by
    rw [List.append_assoc]
    exact (h'.perm.append_left ms).trans h.perm

/-- One worker takes a step that it owes, and the others stand still. -/
theorem keeps_of_worker {first others : List (Worker α β)} {worker next : Worker α β}
    {done done' : Nat} {log log' : Log}
    (hpromised : worker.outputs ++
        (Pool.reached step worker.remaining).flatMap (fun x => (step x).outputs) =
      next.outputs ++ (Pool.reached step next.remaining).flatMap fun x => (step x).outputs)
    (howed : Pool.complaints label step worker.remaining =
      ms ++ Pool.complaints label step next.remaining) (hlog : log.Gained log' ms) :
    Keeps label step { workers := first ++ worker :: others, done, log }
      { workers := first ++ next :: others, done := done', log := log' } ms where
  promised_eq := by simp only [promised, List.flatMap_append, List.flatMap_cons, hpromised]
  gained := hlog
  perm := by
    simp only [owed, List.flatMap_append, List.flatMap_cons, howed, List.append_assoc]
    exact List.perm_append_comm_assoc ..

/-- Whoever takes the next turn keeps what all have promised, and brings them closer to the end. -/
theorem Takes.keeps (h : Takes label total step before after) :
    (∃ ms, Keeps label step before after ms) ∧ after.left < before.left := by
  cases h with
  | @done first others x xs outputs done log hending =>
    refine ⟨⟨(step x).errors, keeps_of_worker ?_ ?_ (Pool.gained_done ..)⟩, ?_⟩
    · simp [Pool.reached_cons_of_done hending]
    · exact Pool.complaints_cons_of_done hending
    · simp [left]
  | @failed first others x xs outputs done log e hending =>
    have hne : (step x).ending ≠ .done := by simp [hending]
    -- The complaint about the input that fails is the last one of this worker.
    refine ⟨⟨_, keeps_of_worker ?_ ?_ (Pool.gained_failed ..)⟩, ?_⟩
    · simp [Pool.reached_cons_of_ne hne, Pool.reached_nil]
    · rw [Pool.complaints_cons_of_failed hending]
      exact (List.append_nil _).symm
    · simp [left]

/-- No turn makes an input panic. -/
theorem Takes.calm (h : Takes label total step before after) (hcalm : before.Calm step) :
    after.Calm step := by
  cases h with
  | done hending =>
    simp only [Calm, List.forall_mem_append, List.forall_mem_cons] at hcalm ⊢
    exact ⟨hcalm.1, hcalm.2.1.2, hcalm.2.2⟩
  | failed hending =>
    simp only [Calm, List.forall_mem_append, List.forall_mem_cons] at hcalm ⊢
    exact ⟨hcalm.1, nofun, hcalm.2.2⟩

/-- While somebody has something left to do, somebody can take a turn. -/
theorem exists_takes (hcalm : crew.Calm step) (h : ¬ crew.Finished) :
    ∃ next, Takes label total step crew next := by
  obtain ⟨workers, done, log⟩ := crew
  simp only [Finished, not_forall] at h
  obtain ⟨⟨remaining, outputs⟩, hworker, hremaining⟩ := h
  obtain ⟨x, xs, rfl⟩ := List.exists_cons_of_ne_nil hremaining
  have hx := hcalm _ hworker x List.mem_cons_self
  obtain ⟨first, others, rfl⟩ := List.append_of_mem hworker
  cases hending : (step x).ending with
  | done => exact ⟨_, .done hending⟩
  | failed e => exact ⟨_, .failed hending⟩
  | panicked p => exact absurd hending (hx p)

/-- In whatever order the workers have taken their turns, they keep what they have promised. -/
theorem keeps_of_reflTransGen (h : Relation.ReflTransGen (Takes label total step) before after) :
    ∃ ms, Keeps label step before after ms := by
  induction h with
  | refl => exact ⟨[], .refl before⟩
  | tail _ htakes ih =>
    obtain ⟨ms, hms⟩ := ih
    obtain ⟨more, hmore⟩ := htakes.keeps.1
    exact ⟨ms ++ more, hms.trans hmore⟩

theorem calm_of_reflTransGen (h : Relation.ReflTransGen (Takes label total step) before after)
    (hcalm : before.Calm step) : after.Calm step := by
  induction h with
  | refl => exact hcalm
  | tail _ htakes ih => exact htakes.calm ih

/-- The workers come to an end. -/
theorem exists_finished (crew : Crew α β) (hcalm : crew.Calm step) :
    ∃ last, Relation.ReflTransGen (Takes label total step) crew last ∧ last.Finished := by
  exact exists_end left (fun _ => exists_takes)
    (fun htakes hcalm => ⟨htakes.calm hcalm, htakes.keeps.2⟩) crew hcalm

/-! Behind the end there is nothing left to promise or to owe. -/

theorem promised_of_finished (h : crew.Finished) : crew.promised step = crew.outputs := by
  refine List.flatMap_congr fun worker hworker => ?_
  rw [h worker hworker, Pool.reached_nil, List.flatMap_nil, List.append_nil]

theorem owed_of_finished (h : crew.Finished) : crew.owed label step = [] := by
  refine List.flatMap_eq_nil_iff.mpr fun worker hworker => ?_
  rw [h worker hworker]
  rfl

/-! Before the beginning there is all of it. -/

theorem promised_start (slices : List (List α)) (log : Log) :
    (start slices log).promised step =
      (slices.flatMap (Pool.reached step)).flatMap fun x => (step x).outputs := by
  simp only [promised, start, List.flatMap_map, List.nil_append, List.flatMap_assoc]

theorem owed_start (slices : List (List α)) (log : Log) :
    (start slices log : Crew α β).owed label step =
      slices.flatMap (Pool.complaints label step) := by
  simp only [owed, start, List.flatMap_map]

/-- **In whatever order the workers of a crew take their turns**, they can come to an end, and then
they have put out what their slices give and have complained of what is wrong with them. -/
theorem ends_of_start {slices : List (List α)} {log : Log}
    (hcalm : ∀ slice ∈ slices, ∀ x ∈ slice, ∀ p, (step x).ending ≠ .panicked p)
    (h : Relation.ReflTransGen (Takes label total step) (start slices log) crew) :
    (crew.Finished →
      crew.outputs = (slices.flatMap (Pool.reached step)).flatMap (fun x => (step x).outputs) ∧
      ∃ ms, ms.Perm (slices.flatMap (Pool.complaints label step)) ∧ log.Gained crew.log ms) ∧
    ∃ last, Relation.ReflTransGen (Takes label total step) crew last ∧ last.Finished := by
  constructor
  · intro hfinished
    obtain ⟨ms, hpromised, hgained, hperm⟩ := keeps_of_reflTransGen h
    rw [promised_of_finished hfinished, promised_start] at hpromised
    rw [owed_of_finished hfinished, List.append_nil, owed_start] at hperm
    exact ⟨hpromised, ms, hperm, hgained⟩
  · refine exists_finished crew (calm_of_reflTransGen h ?_)
    intro worker hworker
    obtain ⟨slice, hslice, rfl⟩ := List.mem_map.mp hworker
    exact hcalm slice hslice

end Crew

namespace Pool

/-- **A stage processes its slices**, one for each worker and together all inputs: each worker comes
to the inputs of its slice up to the first one that fails, and logs one error if there is one. Its
outputs are those of the inputs that the workers have come to, slice by slice; if no input fails,
these are all inputs, each once and in their order. It makes no difference in which order the
workers take their turns, except to the order of the errors. -/
theorem execute_processes_slices (label : String) {workers : Nat} (hworkers : workers ≠ 0)
    {task : Task σ α β} {step : α → Step β} (hstep : ∀ x s, (task x s).1 = step x)
    {inputs : List α} (hcalm : ∀ x ∈ inputs, ∀ p, (step x).ending ≠ .panicked p) (log : Log)
    (state : σ) :
    let slices := Partition.slices workers inputs
    let processed := slices.flatMap (reached step)
    let errors := slices.flatMap (complaints label step)
    slices.length = workers ∧ slices.flatten = inputs ∧
    (∃ after, execute label workers task inputs log state =
        (.ok (processed.flatMap fun x => (step x).outputs), after,
          processed.foldl (fun s x => (task x s).2) state) ∧
      log.Gained after errors) ∧
    errors.length = (processed.map fun x => (step x).errors.length).sum +
      slices.countP (fun slice => slice.any fun x => (step x).failure?.isSome) ∧
    ((∀ x ∈ inputs, (step x).failure? = none) → processed = inputs) ∧
    ∀ crew, Relation.ReflTransGen (Crew.Takes label inputs.length step) (.start slices log) crew →
      (crew.Finished → crew.outputs = processed.flatMap (fun x => (step x).outputs) ∧
        ∃ ms, ms.Perm errors ∧ log.Gained crew.log ms) ∧
      ∃ last, Relation.ReflTransGen (Crew.Takes label inputs.length step) crew last ∧
        last.Finished := by
  intro slices processed errors
  have hslices : ∀ slice ∈ slices, ∀ x ∈ slice, ∀ p, (step x).ending ≠ .panicked p :=
    fun slice hslice x hx => hcalm x (Partition.subset_of_mem_cut hslice hx)
  refine ⟨Partition.length_slices hworkers inputs, Partition.flatten_slices workers inputs,
    execute_of_calm label hstep hworkers hcalm log state,
    length_flatMap_complaints label step slices, fun hnone => ?_,
    fun crew hcrew => Crew.ends_of_start hslices hcrew⟩
  -- What neither fails nor panics is done.
  have hdone : ∀ slice ∈ slices, reached step slice = slice := by
    intro slice hslice
    refine reached_eq_self fun x hx => ?_
    have hx := Partition.subset_of_mem_cut hslice hx
    cases hending : (step x).ending with
    | done => rfl
    | failed e => exact absurd (hnone x hx) (by simp [Step.failure?, hending])
    | panicked p => exact absurd hending (hcalm x hx p)
  calc processed = slices.flatMap id := List.flatMap_congr hdone
    _ = slices.flatten := List.flatMap_id
    _ = inputs := Partition.flatten_slices workers inputs

/-- Two workers, of which the first stops at a negative input. -/
theorem execute_processes_slices_example :
    let step : Int → Step Int := fun x =>
      if x < 0 then { ending := .failed (.unknownModule x.natAbs) } else { outputs := [x] }
    ∃ after, execute "Picky" 2 (Task.stateless step) [1, -2, 3, 4, 5, 6] {} () =
        (.ok [1, 4, 5, 6], after, ()) ∧
      after.errors = 1 ∧ after.complaints = [⟨.error, "Picky: unknown module ModuleId(2)"⟩] := by
  intro step
  have hcalm : ∀ x ∈ [1, -2, 3, 4, 5, 6], ∀ p, (step x).ending ≠ .panicked p := by
    intro x _ p
    unfold step
    split <;> nofun
  have hstep : ∀ (x : Int) (s : Unit), (Task.stateless step x s).1 = step x := fun _ _ => rfl
  obtain ⟨-, -, ⟨after, hexecute, hgained⟩, -⟩ :=
    execute_processes_slices "Picky" (by decide : 2 ≠ 0) hstep hcalm {} ()
  exact ⟨after, hexecute, hgained.errors_eq, hgained.complaints_eq⟩

end Pool

end MutationLab
