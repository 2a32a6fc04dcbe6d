import MutationLab.Proofs.Interleaving

/-! # The completion of a stage

The log keeps of all progress only the report of the last input, and the end of a stage without
inputs. Since the counter hands out every number once, one worker at most has the last number to
report, and it is handed out only if no input fails (`Team.ticks_of_start`). So a stage logs that
it is complete once if no input fails, and else not at all, in whatever order its workers act
(`Pool.completion_tick_exact`). -/

namespace MutationLab

open Relation (ReflTransGen)

/-! ## Counted messages -/

namespace Log

variable {log : Log} {m : Message}

theorem count_add (h : log.capturing = true) (m tick : Message) :
    (log.add m).messages.count tick = log.messages.count tick + [m].count tick := by
  have hmessages : (log.add m).messages = log.messages ++ [m] := by
    obtain ⟨level, text⟩ := m
    obtain ⟨capturing, latest, warnings, errors⟩ := log
    obtain rfl : capturing = true := h
    cases level <;> simp [add, capture, messages]
  rw [hmessages, List.count_append]

theorem count_progress (h : log.capturing = true) (label : String) (number total : Nat) :
    (log.progress label number total).messages.count ⟨.debug, s!"{label}: {total}/{total}"⟩ =
      log.messages.count ⟨.debug, s!"{label}: {total}/{total}"⟩ +
        if number = total then 1 else 0 := by
  rw [progress]
  by_cases heq : number = total
  · subst heq
    rw [if_pos rfl, if_pos rfl, messages_capture, if_pos h, List.count_append,
      List.count_singleton_self]
  · rw [if_neg heq, if_neg heq, Nat.add_zero]

end Log

namespace Pool

/-- The report that a stage is complete. -/
def tick (label : String) (total : Nat) : Message := ⟨.debug, s!"{label}: {total}/{total}"⟩

theorem tick_ne_opened (label : String) (total items workers : Nat) :
    (⟨.debug, s!"{label} ({items} items, {workers} workers)"⟩ : Message) ≠ tick label total := by
  intro h
  have htext := congrArg String.toList (Message.mk.inj h).2
  simp [toString] at htext

theorem tick_ne_finished (label : String) (total : Nat) :
    (⟨.debug, finished label⟩ : Message) ≠ tick label total := by
  intro h
  have htext := congrArg String.toList (Message.mk.inj h).2
  simp [finished, toString] at htext

theorem tick_ne_error (label : String) (total : Nat) (text : String) :
    (⟨.error, text⟩ : Message) ≠ tick label total := fun h => nomatch (Message.mk.inj h).1

/-- The beginning of a stage is no such report. -/
theorem count_opened {log : Log} (h : log.capturing = true) {label : String}
    {total items workers : Nat} :
    (log.debug s!"{label} ({items} items, {workers} workers)").messages.count (tick label total) =
      log.messages.count (tick label total) := by
  have hopened : [(⟨.debug, s!"{label} ({items} items, {workers} workers)"⟩ : Message)].count
      (tick label total) = 0 :=
    List.count_eq_zero.mpr fun hmem => tick_ne_opened label _ _ _ (List.mem_singleton.mp hmem).symm
  rw [Log.debug, Log.count_add h, hopened, Nat.add_zero]

/-- The end of a stage without inputs is the report that it is complete. -/
theorem count_close {log : Log} (h : log.capturing = true) (label : String) (total : Nat) :
    (close label total log).messages.count (tick label total) =
      log.messages.count (tick label total) + if total = 0 then 1 else 0 := by
  have hfinished : [(⟨.debug, finished label⟩ : Message)].count (tick label total) = 0 :=
    List.count_eq_zero.mpr fun hmem =>
      tick_ne_finished label total (List.mem_singleton.mp hmem).symm
  rw [close]
  by_cases hnone : total = 0
  · subst hnone
    have hcapturing : (log.progress label 0 0).capturing = true :=
      (Log.Gained.progress log label 0 0).capturing_eq.trans h
    have hprogress := Log.count_progress h label 0 0
    rw [if_pos rfl, if_pos rfl, Log.debug, Log.count_add hcapturing, hfinished, Nat.add_zero]
    exact hprogress
  · rw [if_neg hnone, if_neg hnone, Log.debug, Log.count_add h, hfinished]

end Pool

/-! ## Reports -/

/-- One for a number that is the last one, and is not reported. -/
def Member.pending (total : Nat) (m : Member α β) : Nat :=
  match m.phase with
  | .counted number => if number = total then 1 else 0
  | _ => 0

namespace Team

variable {label : String} {total : Nat} {task : Task σ α β} {step : α → Step β}
  {team before after : Team σ α β} {initial : Log}

/-- **The reports that a stage is complete**: those that were there before, those that its tasks
make up, and one if the counter has handed out the last number. What is still to be said or reported
counts as well. -/
structure Ticks (label : String) (total : Nat) (step : α → Step β) (initial : Log)
    (team : Team σ α β) : Prop where
  capturing : team.log.capturing = true
  count_eq : team.log.messages.count (Pool.tick label total) +
      (team.members.flatMap (·.unsaid)).count (Pool.tick label total) +
      (team.members.map (·.pending total)).sum =
    initial.messages.count (Pool.tick label total) +
      (team.taken.flatMap fun x => (step x).messages).count (Pool.tick label total) +
      if 0 < total ∧ total ≤ team.done then 1 else 0

theorem ticks_start (h : initial.capturing = true) (slices : List (List α)) (state : σ) :
    (start slices initial state : Team σ α β).Ticks label total step initial where
  capturing := h
  count_eq := by
    have hunsaid : slices.flatMap (fun _ => ([] : List Message)) = [] :=
      List.flatMap_eq_nil_iff.mpr fun _ _ => rfl
    have hnone : ¬ (0 < total ∧ total ≤ (start slices initial state : Team σ α β).done) :=
      fun ⟨hpos, hle⟩ => Nat.not_le.mpr hpos hle
    rw [if_neg hnone]
    simp [start, List.flatMap_map, Member.unsaid, Member.pending, Function.comp_def, hunsaid]

/-- One worker moves on, and the others stand still. -/
theorem Ticks.replace (hticks : before.Ticks label total step initial)
    {first others : List (Member α β)} {m next : Member α β}
    (h : before.members = first ++ m :: others) (h' : after.members = first ++ next :: others)
    (hcapturing : after.log.capturing = before.log.capturing)
    {fresh : List α} (htaken : after.taken = before.taken ++ fresh)
    (hcount : after.log.messages.count (Pool.tick label total) +
        next.unsaid.count (Pool.tick label total) + next.pending total +
        (if 0 < total ∧ total ≤ before.done then 1 else 0) =
      before.log.messages.count (Pool.tick label total) +
        m.unsaid.count (Pool.tick label total) + m.pending total +
        (fresh.flatMap fun x => (step x).messages).count (Pool.tick label total) +
        if 0 < total ∧ total ≤ after.done then 1 else 0) :
    after.Ticks label total step initial where
  capturing := hcapturing.trans hticks.capturing
  count_eq := by
    have hbefore := hticks.count_eq
    rw [h] at hbefore
    rw [h', htaken]
    simp only [List.flatMap_append, List.flatMap_cons, List.count_append, List.map_append,
      List.map_cons, List.sum_append, List.sum_cons] at hbefore ⊢
    omega

/-- **The next action keeps the reports counted.** -/
theorem Acts.ticks (hstep : ∀ x s, (task x s).1 = step x) (h : Acts label total task before after)
    (hticks : before.Ticks label total step initial) : after.Ticks label total step initial := by
  have hcapturing := hticks.capturing
  cases h with
  | @take first others x xs outputs h =>
    refine hticks.replace h rfl rfl rfl ?_
    simp only [Member.unsaid, Member.pending, hstep, List.flatMap_singleton, List.count_nil]
    omega
  | @say first others xs outputs m ms ending h =>
    refine hticks.replace h rfl (Log.Gained.add _ m).capturing_eq (List.append_nil _).symm ?_
    have hcons : (m :: ms).count (Pool.tick label total) =
        [m].count (Pool.tick label total) + ms.count (Pool.tick label total) := by
      rw [← List.singleton_append, List.count_append]
    simp only [Member.unsaid, Member.pending, Log.count_add hcapturing, hcons, List.flatMap_nil,
      List.count_nil]
    omega
  | @succeed first others xs outputs h =>
    exact hticks.replace h rfl rfl (List.append_nil _).symm rfl
  | @fail first others xs outputs e h =>
    refine hticks.replace h rfl (Log.Gained.error _ _).capturing_eq (List.append_nil _).symm ?_
    have herror : [(⟨.error, s!"{label}: {e.message}"⟩ : Message)].count
        (Pool.tick label total) = 0 :=
      List.count_eq_zero.mpr fun hmem =>
        Pool.tick_ne_error label total _ (List.mem_singleton.mp hmem).symm
    simp only [Member.unsaid, Member.pending, Log.error, Log.count_add hcapturing, herror,
      List.flatMap_nil, List.count_nil]
  | @count first others xs outputs h =>
    refine hticks.replace h rfl rfl (List.append_nil _).symm ?_
    -- The number that is handed out is the last one if and only if none was the last one before.
    simp only [Member.unsaid, Member.pending, List.flatMap_nil, List.count_nil]
    split <;> split <;> split <;> omega
  | @report first others xs outputs number h =>
    refine hticks.replace h rfl (Log.Gained.progress ..).capturing_eq (List.append_nil _).symm ?_
    have hprogress := Log.count_progress hcapturing label number total
    simp only [Member.unsaid, Member.pending, Pool.tick, hprogress, List.flatMap_nil,
      List.count_nil]
    omega

theorem ticks_of_start (hstep : ∀ x s, (task x s).1 = step x)
    (hcapturing : initial.capturing = true) {slices : List (List α)} {state : σ}
    (h : ReflTransGen (Acts label total task) (start slices initial state) team) :
    team.Ticks label total step initial := by
  induction h with
  | refl => exact ticks_start hcapturing slices state
  | tail _ hacts ih => exact hacts.ticks hstep ih

namespace Finished

theorem unsaid_eq (h : team.Finished) : team.members.flatMap (·.unsaid) = [] := by
  refine List.flatMap_eq_nil_iff.mpr fun m hm => ?_
  rw [Member.unsaid, (h m hm).2]

theorem pending_eq (h : team.Finished) : (team.members.map (·.pending total)).sum = 0 := by
  refine List.sum_eq_zero fun n hn => ?_
  obtain ⟨m, hm, rfl⟩ := List.mem_map.mp hn
  rw [Member.pending, (h m hm).2]

/-- In the end nothing is still to be said or reported. -/
theorem count_eq (h : team.Finished) {processed : List α} {state : σ}
    (hbalanced : team.Balanced task step processed state)
    (hticks : team.Ticks label total step initial) :
    team.log.messages.count (Pool.tick label total) =
      initial.messages.count (Pool.tick label total) +
        (processed.flatMap fun x => (step x).messages).count (Pool.tick label total) +
        if 0 < total ∧ total ≤ processed.countP (fun x => (step x).isDone) then 1 else 0 := by
  have hcount := hticks.count_eq
  have hdone := (h.succeeded_eq hbalanced).2
  rwa [h.unsaid_eq, h.pending_eq, List.count_nil,
    ((h.taken_perm hbalanced).flatMap_right _).count_eq, hdone] at hcount

end Finished

end Team

/-! ## Whole stages -/

/-- What does not panic is done unless it fails. -/
theorem Step.failure?_eq_none_iff {step : Step β} (h : ∀ p, step.ending ≠ .panicked p) :
    step.failure? = none ↔ step.ending = .done := by
  rw [failure?]
  cases hending : step.ending with
  | done => simp
  | failed e => simp
  | panicked p => exact absurd hending (h p)

namespace Pool

variable {step : α → Step β}

/-- A worker comes to a part of its slice, in order. -/
theorem reached_sublist (slice : List α) : (reached step slice).Sublist slice := by
  have h := (List.Sublist.refl (slice.takeWhile fun x => (step x).isDone)).append
    (List.take_sublist 1 (slice.dropWhile fun x => (step x).isDone))
  rwa [List.takeWhile_append_dropWhile] at h

/-- As many inputs are done as there are if and only if all of them are. -/
theorem length_le_countP_reached_iff (step : α → Step β) (slices : List (List α)) :
    slices.flatten.length ≤ (slices.flatMap (reached step)).countP (fun x => (step x).isDone) ↔
      ∀ x ∈ slices.flatten, (step x).ending = .done := by
  have hsublist : (slices.flatMap (reached step)).Sublist slices.flatten := by
    induction slices with
    | nil => exact .refl _
    | cons slice slices ih => exact (reached_sublist slice).append ih
  constructor
  · intro hle x hx
    have hall : slices.flatten.countP (fun x => (step x).isDone) = slices.flatten.length :=
      le_antisymm List.countP_le_length (hle.trans hsublist.countP_le)
    exact decide_eq_true_eq.mp (List.countP_eq_length.mp hall x hx)
  · intro hdone
    have hreached : slices.flatMap (reached step) = slices.flatten :=
      calc slices.flatMap (reached step)
          = slices.flatMap id := List.flatMap_congr fun slice hslice =>
            reached_eq_self fun x hx => hdone x (List.mem_flatten.mpr ⟨slice, hslice, hx⟩)
        _ = slices.flatten := List.flatMap_id
    rw [hreached]
    exact (List.countP_eq_length.mpr fun x hx => decide_eq_true (hdone x hx)).ge

/-- **A stage is complete once, or not at all.** Take any number of workers, any inputs and a task
that keeps no state and does not panic, and let the workers act in any order; what the stage does is
one of the orders. At every moment the numbers that the counter has handed out are distinct, and
there are at least as many inputs that have been processed as any of them says. In the end these are
all inputs that the workers come to and that do not fail. The log has then gained one report that
the stage is complete if no input fails, also if there is none, and no such report if one fails,
beside messages of the task that read the same. -/
theorem completion_tick_exact (label : String) {workers : Nat} (hworkers : workers ≠ 0)
    {task : Task σ α β} (hstep : ∀ x s, (task x s).1 = step x) {inputs : List α}
    (hcalm : ∀ x ∈ inputs, ∀ p, (step x).ending ≠ .panicked p) {log : Log}
    (hcapturing : log.capturing = true) (state : σ) :
    let slices := Partition.slices workers inputs
    let processed := slices.flatMap (reached step)
    let begun : Team σ α β :=
      .start slices (log.debug s!"{label} ({inputs.length} items, {workers} workers)") state
    let ticks := fun log : Log => log.messages.count (tick label inputs.length)
    (∃ last, ReflTransGen (Team.Acts label inputs.length task) begun last ∧ last.Finished ∧
      execute label workers task inputs log state =
        (.ok last.outputs, close label inputs.length last.log, last.state)) ∧
    ∀ team, ReflTransGen (Team.Acts label inputs.length task) begun team →
      team.handed.Nodup ∧ (∀ number ∈ team.handed, number ≤ team.succeeded) ∧
      (team.Finished →
        team.succeeded = processed.countP (fun x => (step x).isDone) ∧
        ticks (close label inputs.length team.log) =
          ticks log +
            (processed.flatMap fun x => (step x).messages).count (tick label inputs.length) +
            if ∀ x ∈ inputs, (step x).failure? = none then 1 else 0) ∧
      ∃ last, ReflTransGen (Team.Acts label inputs.length task) team last ∧ last.Finished := by
  intro slices processed begun ticks
  have hslices : ∀ slice ∈ slices, ∀ x ∈ slice, ∀ p, (step x).ending ≠ .panicked p :=
    fun slice hslice x hx => hcalm x (Partition.subset_of_mem_cut hslice hx)
  refine ⟨Team.exists_execute_eq label hstep hworkers hcalm log state, fun team hteam => ?_⟩
  have hbalanced : team.Balanced task step processed state := Team.balanced_of_start hstep hteam
  refine ⟨hbalanced.nodup_handed, fun _ => hbalanced.le_succeeded, fun hfinished => ⟨?_, ?_⟩, ?_⟩
  · obtain ⟨hdone, hsucceeded⟩ := hfinished.succeeded_eq hbalanced
    rw [← hdone, hsucceeded]
  · have hticks := Team.ticks_of_start hstep
      ((Log.Gained.debug log _).capturing_eq.trans hcapturing) hteam
    have hcount := hfinished.count_eq hbalanced hticks
    have hclose := count_close hticks.capturing label inputs.length
    have hall : inputs.length ≤ processed.countP (fun x => (step x).isDone) ↔
        ∀ x ∈ inputs, (step x).failure? = none := by
      have hiff := length_le_countP_reached_iff step slices
      rw [Partition.flatten_slices] at hiff
      rw [hiff]
      exact forall₂_congr fun x hx => (Step.failure?_eq_none_iff (hcalm x hx)).symm
    rw [count_opened hcapturing] at hcount
    simp only [ticks, ← hall]
    -- Without inputs the end of the stage reports, and else the worker with the last number does.
    split at hclose <;> split at hcount <;> split <;> omega
  · exact Team.exists_finished hstep team
      (Team.calm_of_reflTransGen hstep hteam (Team.calm_start hslices))

/-- Two workers, of which the first stops at a negative input: in whatever order they act, four
inputs are processed, and the stage does not log that it is complete. -/
theorem completion_tick_exact_example :
    let step : Int → Step Int := fun x =>
      if x < 0 then { ending := .failed (.unknownModule x.natAbs) } else { outputs := [x] }
    let begun : Team Unit Int Int :=
      .start [[1, -2, 3], [4, 5, 6]] (({} : Log).debug "Picky (6 items, 2 workers)") ()
    (∀ x ∈ [1, -2, 3, 4, 5, 6], ∀ p, (step x).ending ≠ .panicked p) ∧
      (∃ last, ReflTransGen (Team.Acts "Picky" 6 (Task.stateless step)) begun last ∧
        last.Finished) ∧
      ∀ team, ReflTransGen (Team.Acts "Picky" 6 (Task.stateless step)) begun team →
        team.Finished → team.succeeded = 4 ∧
          (close "Picky" 6 team.log).messages.count ⟨.debug, "Picky: 6/6"⟩ = 0 := by
  intro step begun
  have hcalm : ∀ x ∈ [1, -2, 3, 4, 5, 6], ∀ p, (step x).ending ≠ .panicked p := by
    intro x _ p
    unfold step
    split <;> nofun
  have hstep : ∀ (x : Int) (s : Unit), (Task.stateless step x s).1 = step x := fun _ _ => rfl
  obtain ⟨⟨last, hlast, hfinished, -⟩, horders⟩ :=
    completion_tick_exact "Picky" (by decide : 2 ≠ 0) hstep hcalm
      (by rfl : ({} : Log).capturing = true) ()
  refine ⟨hcalm, ⟨last, hlast, hfinished⟩, fun team hteam hfinished => ?_⟩
  obtain ⟨-, -, hend, -⟩ := horders team hteam
  obtain ⟨hsucceeded, hticks⟩ := hend hfinished
  exact ⟨hsucceeded, hticks⟩

end Pool

end MutationLab
