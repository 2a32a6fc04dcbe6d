import Mathlib.Data.List.Perm.Basic
import MutationLab.Proofs.Executing

/-! # Stages in which tasks panic

Several workers run as threads, and the stage waits for them one after the other. A thread that is
torn down by a panic leaves no outputs behind; the stage notes this when it comes to the thread, and
goes on. So in whatever order everything happens, the stage ends with what the other slices give and
one error for each thread that is torn down (`Threads.ends_of_start`). A single worker is no thread
of its own: a panic that it comes to is the end of the stage (`Pool.execute_contains_panics`). -/

namespace MutationLab

/-- A worker that runs as a thread. -/
inductive Thread (α β : Type) where
  /-- It has inputs that it has not come to, and outputs. -/
  | working (remaining : List α) (outputs : List β)
  /-- It is torn down. -/
  | torn (p : Panic)

/-- A stage that waits for its threads. They share the count of inputs done and the log. -/
structure Threads (α β : Type) where
  /-- The outputs of the threads that it has waited for. -/
  collected : List β := []
  /-- The threads that it has not waited for, in order. -/
  threads : List (Thread α β)
  done : Nat := 0
  log : Log

namespace Thread

/-- What a thread leaves behind in the end. -/
def promised (step : α → Step β) : Thread α β → List β
  | working remaining outputs =>
      if (Pool.panic? step remaining).isSome then []
      else outputs ++ (Pool.reached step remaining).flatMap fun x => (step x).outputs
  | torn _ => []

/-- The errors that are still to come about a thread. -/
def owed (label : String) (step : α → Step β) : Thread α β → List Message
  | working remaining _ =>
      Pool.reports label step remaining ++
        (Pool.panic? step remaining).toList.map fun _ => Pool.lost label
  | torn _ => [Pool.lost label]

/-- How much is left for a thread, and for who waits for it. -/
def left : Thread α β → Nat
  | working remaining _ => remaining.length + 1
  | torn _ => 1

end Thread

namespace Threads

/-- Nobody has begun. -/
def start (slices : List (List α)) (log : Log) : Threads α β where
  threads := slices.map fun slice => .working slice []
  log

/-- Any one of the threads takes its next input, or the stage is done with waiting for the first. -/
inductive Moves (label : String) (total : Nat) (step : α → Step β) :
    Threads α β → Threads α β → Prop
  /-- The input is done, and the thread goes on. -/
  | done {collected outputs : List β} {first others : List (Thread α β)} {x : α} {xs : List α}
      {done : Nat} {log : Log} (h : (step x).ending = .done) :
      Moves label total step
        { collected, threads := first ++ .working (x :: xs) outputs :: others, done, log }
        { collected, threads := first ++ .working xs (outputs ++ (step x).outputs) :: others
          done := done + 1
          log := (log.addAll (step x).messages).progress label (done + 1) total }
  /-- The input fails, and the thread drops the rest of its slice. -/
  | failed {collected outputs : List β} {first others : List (Thread α β)} {x : α} {xs : List α}
      {done : Nat} {log : Log} {e : TaskError} (h : (step x).ending = .failed e) :
      Moves label total step
        { collected, threads := first ++ .working (x :: xs) outputs :: others, done, log }
        { collected, threads := first ++ .working [] (outputs ++ (step x).outputs) :: others, done
          log := (log.addAll (step x).messages).error s!"{label}: {e.message}" }
  /-- The input panics, and the thread is torn down. -/
  | panicked {collected outputs : List β} {first others : List (Thread α β)} {x : α} {xs : List α}
      {done : Nat} {log : Log} {p : Panic} (h : (step x).ending = .panicked p) :
      Moves label total step
        { collected, threads := first ++ .working (x :: xs) outputs :: others, done, log }
        { collected, threads := first ++ .torn p :: others, done
          log := log.addAll (step x).messages }
  /-- The first thread has come to its end, and the stage takes its outputs. -/
  | joined {collected outputs : List β} {others : List (Thread α β)} {done : Nat} {log : Log} :
      Moves label total step
        { collected, threads := .working [] outputs :: others, done, log }
        { collected := collected ++ outputs, threads := others, done, log }
  /-- The first thread is torn down, and the stage says so. -/
  | lost {collected : List β} {others : List (Thread α β)} {done : Nat} {log : Log} {p : Panic} :
      Moves label total step
        { collected, threads := .torn p :: others, done, log }
        { collected, threads := others, done, log := log.error s!"{label}: worker panicked" }

/-- What the stage will have put out in the end. -/
def promised (step : α → Step β) (t : Threads α β) : List β :=
  t.collected ++ t.threads.flatMap (·.promised step)

/-- The errors that are still to come. -/
def owed (label : String) (step : α → Step β) (t : Threads α β) : List Message :=
  t.threads.flatMap (·.owed label step)

/-- How much is left to do. -/
def left (t : Threads α β) : Nat := (t.threads.map (·.left)).sum

/-- Between two moments a stage logs errors that were owed, and keeps its promises. -/
structure Keeps (label : String) (step : α → Step β) (before after : Threads α β)
    (ms : List Message) : Prop where
  promised_eq : after.promised step = before.promised step
  gained : before.log.Gained after.log ms
  perm : (ms ++ after.owed label step).Perm (before.owed label step)

variable {label : String} {total : Nat} {step : α → Step β}
  {before between after t : Threads α β} {ms more : List Message}

theorem Keeps.refl (t : Threads α β) : Keeps label step t t [] := ⟨rfl, .refl t.log, .refl _⟩

theorem Keeps.trans (h : Keeps label step before between ms)
    (h' : Keeps label step between after more) : Keeps label step before after (ms ++ more) where
  promised_eq := h'.promised_eq.trans h.promised_eq
  gained := h.gained.trans h'.gained
  perm := by
    rw [List.append_assoc]
    exact (h'.perm.append_left ms).trans h.perm

/-- One thread does what it owes, and the others stand still. -/
theorem keeps_of_thread {collected : List β} {first others : List (Thread α β)}
    {thread next : Thread α β} {done done' : Nat} {log log' : Log}
    (hpromised : next.promised step = thread.promised step)
    (howed : thread.owed label step = ms ++ next.owed label step) (hlog : log.Gained log' ms) :
    Keeps label step { collected, threads := first ++ thread :: others, done, log }
      { collected, threads := first ++ next :: others, done := done', log := log' } ms where
  promised_eq := by simp only [promised, List.flatMap_append, List.flatMap_cons, hpromised]
  gained := hlog
  perm := by
    simp only [owed, List.flatMap_append, List.flatMap_cons, howed, List.append_assoc]
    exact List.perm_append_comm_assoc ..

/-- **Whatever happens next** keeps what the stage has promised, and brings it closer to the end. -/
theorem Moves.keeps (h : Moves label total step before after) :
    (∃ ms, Keeps label step before after ms) ∧ after.left < before.left := by
  cases h with
  | @done collected outputs first others x xs done log hending =>
    refine ⟨⟨(step x).errors, keeps_of_thread ?_ ?_ (Pool.gained_done ..)⟩, ?_⟩
    · simp [Thread.promised, Pool.panic?_cons_of_done hending, Pool.reached_cons_of_done hending]
    · simp [Thread.owed, Pool.panic?_cons_of_done hending, Pool.reports_cons_of_done hending]
    · simp [left, Thread.left]
  | @failed collected outputs first others x xs done log e hending =>
    have hne : (step x).ending ≠ .done := by simp [hending]
    have hpanic : Pool.panic? step (x :: xs) = none := by
      simp [Pool.panic?_cons_of_ne hne, Step.panic?, hending]
    refine ⟨⟨_, keeps_of_thread ?_ ?_ (Pool.gained_failed ..)⟩, ?_⟩
    · simp [Thread.promised, hpanic, Pool.reached_cons_of_ne hne]
    · simp [Thread.owed, hpanic, Pool.reports_cons_of_ne hne, Step.failure?, hending]
    · simp [left, Thread.left]
  | @panicked collected outputs first others x xs done log p hending =>
    have hne : (step x).ending ≠ .done := by simp [hending]
    have hpanic : Pool.panic? step (x :: xs) = some p := by
      simp [Pool.panic?_cons_of_ne hne, Step.panic?, hending]
    -- The outputs that the thread has so far are lost, and so was its promise from the beginning.
    refine ⟨⟨(step x).errors, keeps_of_thread ?_ ?_ (.addAll ..)⟩, ?_⟩
    · simp [Thread.promised, hpanic]
    · simp [Thread.owed, hpanic, Pool.reports_cons_of_ne hne, Step.failure?, hending]
    · simp [left, Thread.left]
  | @joined collected outputs others done log =>
    refine ⟨⟨[], ?_, .refl _, ?_⟩, ?_⟩
    · simp [promised, Thread.promised]
    · simp [owed, Thread.owed]
    · simp [left, Thread.left]
  | @lost collected others done log p =>
    refine ⟨⟨[Pool.lost label], ?_, .error _ _, ?_⟩, ?_⟩
    · simp [promised, Thread.promised]
    · simp [owed, Thread.owed]
    · simp [left, Thread.left]

/-- In whatever order everything happens, the stage keeps what it has promised. -/
theorem keeps_of_reflTransGen (h : Relation.ReflTransGen (Moves label total step) before after) :
    ∃ ms, Keeps label step before after ms := by
  induction h with
  | refl => exact ⟨[], .refl before⟩
  | tail _ hmoves ih =>
    obtain ⟨ms, hms⟩ := ih
    obtain ⟨more, hmore⟩ := hmoves.keeps.1
    exact ⟨ms ++ more, hms.trans hmore⟩

/-- While there are threads to wait for, something can happen. -/
theorem exists_moves (h : t.threads ≠ []) : ∃ next, Moves label total step t next := by
  obtain ⟨collected, threads, done, log⟩ := t
  obtain ⟨thread, others, rfl⟩ := List.exists_cons_of_ne_nil h
  cases thread with
  | torn p => exact ⟨_, .lost⟩
  | working remaining outputs =>
    cases remaining with
    | nil => exact ⟨_, .joined⟩
    | cons x xs =>
      -- There are no threads before the first.
      rw [← List.nil_append (.working (x :: xs) outputs :: others)]
      cases hending : (step x).ending with
      | done => exact ⟨_, .done hending⟩
      | failed e => exact ⟨_, .failed hending⟩
      | panicked p => exact ⟨_, .panicked hending⟩

/-- The stage comes to an end. -/
theorem exists_ended (t : Threads α β) :
    ∃ last, Relation.ReflTransGen (Moves label total step) t last ∧ last.threads = [] := by
  -- Nothing has to be assumed of the threads: a panic does not keep the others from going on.
  exact exists_end (P := fun _ => True) left (fun _ _ => exists_moves)
    (fun hmoves _ => ⟨trivial, hmoves.keeps.2⟩) t trivial

/-! Before the beginning there is everything to promise. -/

theorem promised_start (slices : List (List α)) (log : Log) :
    (start slices log : Threads α β).promised step = slices.flatMap (Pool.kept step) := by
  simp only [promised, start, List.flatMap_map, List.nil_append, Thread.promised]
  rfl

/-- One error for each slice with a panic. -/
theorem flatMap_lost (slices : List (List α)) :
    (slices.flatMap fun slice =>
        (Pool.panic? step slice).toList.map fun _ => Pool.lost label) =
      List.replicate (slices.countP fun slice => (Pool.panic? step slice).isSome)
        (Pool.lost label) := by
  induction slices with
  | nil => rfl
  | cons slice slices ih =>
    rw [List.flatMap_cons, ih]
    cases hpanic : Pool.panic? step slice with
    | none =>
      rw [List.countP_cons_of_neg (by simp [hpanic])]
      rfl
    | some p =>
      rw [List.countP_cons_of_pos (by simp [hpanic])]
      rfl

theorem owed_start (slices : List (List α)) (log : Log) :
    ((start slices log : Threads α β).owed label step).Perm
      (slices.flatMap (Pool.reports label step) ++
        List.replicate (slices.countP fun slice => (Pool.panic? step slice).isSome)
          (Pool.lost label)) := by
  simp only [owed, start, List.flatMap_map, Thread.owed]
  rw [← flatMap_lost]
  exact (List.flatMap_append_perm ..).symm

/-- **In whatever order everything happens**, the stage can come to an end, and then it has put out
what the slices without a panic give and has logged one error for each of the others. -/
theorem ends_of_start {slices : List (List α)} {log : Log}
    (h : Relation.ReflTransGen (Moves label total step) (start slices log) t) :
    (t.threads = [] → t.collected = slices.flatMap (Pool.kept step) ∧
      ∃ ms, ms.Perm (slices.flatMap (Pool.reports label step) ++
          List.replicate (slices.countP fun slice => (Pool.panic? step slice).isSome)
            (Pool.lost label)) ∧
        log.Gained t.log ms) ∧
    ∃ last, Relation.ReflTransGen (Moves label total step) t last ∧ last.threads = [] := by
  refine ⟨fun hend => ?_, exists_ended t⟩
  obtain ⟨ms, hpromised, hgained, hperm⟩ := keeps_of_reflTransGen h
  rw [promised_start, promised, hend, List.flatMap_nil, List.append_nil] at hpromised
  rw [owed, hend, List.flatMap_nil, List.append_nil] at hperm
  exact ⟨hpromised, ms, hperm.trans (owed_start slices log), hgained⟩

end Threads

namespace Pool

/-- Where everything is done, everything is kept. -/
theorem kept_of_done {step : α → Step β} {slice : List α}
    (h : ∀ x ∈ slice, (step x).ending = .done) :
    kept step slice = slice.flatMap fun x => (step x).outputs := by
  have hcalm : panic? step slice = none := panic?_of_calm fun x hx p => by simp [h x hx]
  simp [kept, hcalm, reached_eq_self h]

/-- **A stage of several workers contains panics**: it keeps what the slices give whose workers are
not torn down, slice by slice, and logs one error for each of the others, in whatever order the
threads take their turns. With a single worker this is so only as long as it comes to no panic: the
first one that it comes to is the end of the stage, and no error tells of it. -/
theorem execute_contains_panics (label : String) {workers : Nat} (hworkers : workers ≠ 0)
    {task : Task σ α β} {step : α → Step β} (hstep : ∀ x s, (task x s).1 = step x)
    (inputs : List α) (log : Log) (state : σ) :
    let slices := Partition.slices workers inputs
    let processed := slices.flatMap (reached step)
    let errors := slices.flatMap (reports label step) ++
      List.replicate (slices.countP fun slice => (panic? step slice).isSome) (lost label)
    slices.length = workers ∧ slices.flatten = inputs ∧
    (∀ slice ∈ slices, (∀ x ∈ slice, (step x).ending = .done) →
      kept step slice = slice.flatMap fun x => (step x).outputs) ∧
    (workers ≠ 1 ∨ panic? step inputs = none →
      ∃ after, execute label workers task inputs log state =
          (.ok (slices.flatMap (kept step)), after,
            processed.foldl (fun s x => (task x s).2) state) ∧
        log.Gained after errors) ∧
    (∀ p, workers = 1 → panic? step inputs = some p →
      ∃ after, execute label workers task inputs log state =
          (.error p, after, processed.foldl (fun s x => (task x s).2) state) ∧
        log.Gained after (slices.flatMap (reports label step))) ∧
    ∀ t, Relation.ReflTransGen (Threads.Moves label inputs.length step) (.start slices log) t →
      (t.threads = [] → t.collected = slices.flatMap (kept step) ∧
        ∃ ms, ms.Perm errors ∧ log.Gained t.log ms) ∧
      ∃ last, Relation.ReflTransGen (Threads.Moves label inputs.length step) t last ∧
        last.threads = [] := by
  intro slices processed errors
  refine ⟨Partition.length_slices hworkers inputs, Partition.flatten_slices workers inputs,
    fun slice _ hdone => kept_of_done hdone,
    fun hcontained => execute_eq_kept label hstep hworkers hcontained log state, ?_,
    fun t ht => Threads.ends_of_start ht⟩
  rintro p rfl hpanic
  have hslices : slices = [inputs] := Partition.slices_one inputs
  obtain ⟨after, hexecute, hlog⟩ := execute_of_panic label hstep hpanic log state
  refine ⟨after, ?_, ?_⟩
  · rw [hexecute]
    simp only [processed, hslices, List.flatMap_singleton]
  · rwa [hslices, List.flatMap_singleton]

/-- A task that doubles its inputs, except for one that it cannot stand. -/
def Example.probe (x : Nat) : Step Nat :=
  if x = 2 then { ending := .panicked (.text "probe panicked") } else { outputs := [2 * x] }

/-- Two workers, of which the first is torn down at its second input. -/
theorem execute_contains_panics_example :
    ∃ after, execute "Probe" 2 (Task.stateless Example.probe) [1, 2, 3, 4] {} () =
        (.ok [6, 8], after, ()) ∧
      after.errors = 1 ∧ after.complaints = [⟨.error, "Probe: worker panicked"⟩] := by
  have hstep : ∀ (x : Nat) (s : Unit),
      (Task.stateless Example.probe x s).1 = Example.probe x := fun _ _ => rfl
  obtain ⟨-, -, -, hcontained, -⟩ := execute_contains_panics "Probe" (by decide : 2 ≠ 0) hstep
    [1, 2, 3, 4] {} ()
  obtain ⟨after, hexecute, hgained⟩ := hcontained (.inl (by decide))
  exact ⟨after, hexecute, hgained.errors_eq, hgained.complaints_eq⟩

/-- A single worker is torn down together with the stage, and no error is logged. -/
theorem execute_single_panics :
    (execute "Probe" 1 (Task.stateless Example.probe) [1, 2] {} ()).1 =
        .error (.text "probe panicked") ∧
      (execute "Probe" 1 (Task.stateless Example.probe) [1, 2] {} ()).2.1.errors = 0 := by
  decide

end Pool

end MutationLab
