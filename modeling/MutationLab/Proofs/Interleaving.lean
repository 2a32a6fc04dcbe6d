import MutationLab.Proofs.Executing

/-! # Single actions of workers

Between two workers that share a counter and a log anything may happen: one of them may have
processed an input that the other one counts later, and what is counted first may be reported last.
So here a worker does one thing at a time, and the single actions of all workers come in any order
(`Team.Acts`). What a stage does is one of these orders (`Team.exists_execute_eq`). Whatever the
order is, nobody is ever stuck before the end (`Team.exists_finished`), and the books stay balanced
(`Team.balanced_of_start`): the counter hands out one number after the other, none before an input
is processed for it; and in the end the workers have taken the inputs that their slices give them,
have changed the shared state in the order of taking them, and have put out what one worker after
the other puts out. -/

namespace MutationLab

open Relation (ReflTransGen)

/-- What a worker is in the middle of. -/
inductive Phase where
  /-- Nothing; it is about to take the next input of its slice. -/
  | idle
  /-- Its task works on an input: what it has still to say, and how it will end. -/
  | working (messages : List Message) (ending : Ending)
  /-- The input is processed, but not counted. -/
  | processed
  /-- The counter has handed out a number for it, which is not reported. -/
  | counted (number : Nat)

/-- A worker in the middle of its slice. -/
structure Member (α β : Type) where
  /-- The inputs that it has not taken. -/
  remaining : List α
  outputs : List β := []
  phase : Phase := .idle

/-- Workers that run at the same time. They share the counter, the log and the state of the task. -/
structure Team (σ α β : Type) where
  members : List (Member α β)
  done : Nat := 0
  log : Log
  state : σ
  /-- The inputs that have been taken, the first one first. -/
  taken : List α := []
  /-- The number of inputs that have been processed to a good end. -/
  succeeded : Nat := 0
  /-- The numbers that the counter has handed out, the first one first. -/
  handed : List Nat := []

namespace Member

/-- Nothing is left to do for the worker. -/
def Finished (m : Member α β) : Prop := m.remaining = [] ∧ m.phase = .idle

/-- What the task of the worker has still to say about its input. -/
def unsaid (m : Member α β) : List Message :=
  match m.phase with
  | .working messages _ => messages
  | _ => []

/-- One for an input that is processed, but not counted. -/
def waiting (m : Member α β) : Nat :=
  match m.phase with
  | .processed => 1
  | _ => 0

/-- One for an input that is taken and will be counted. -/
def uncounted (m : Member α β) : Nat :=
  match m.phase with
  | .working _ .done | .processed => 1
  | _ => 0

/-- The inputs that the worker will still take. -/
def coming (step : α → Step β) (m : Member α β) : List α :=
  match m.phase with
  | .working _ .done | .idle | .processed | .counted _ => Pool.reached step m.remaining
  | .working _ _ => []

/-- What the worker will have put out in the end. -/
def promised (step : α → Step β) (m : Member α β) : List β :=
  m.outputs ++ (m.coming step).flatMap fun x => (step x).outputs

/-- No input of the worker panics. -/
def Calm (step : α → Step β) (m : Member α β) : Prop :=
  (∀ x ∈ m.remaining, ∀ p, (step x).ending ≠ .panicked p) ∧
    ∀ messages p, m.phase ≠ .working messages (.panicked p)

/-- How many actions are left for the worker at most. -/
def left (step : α → Step β) (m : Member α β) : Nat :=
  (m.remaining.map fun x => (step x).messages.length + 4).sum +
    match m.phase with
    | .idle => 0
    | .working messages _ => messages.length + 3
    | .processed => 2
    | .counted _ => 1

end Member

namespace Team

/-- Nobody has begun. -/
def start (slices : List (List α)) (log : Log) (state : σ) : Team σ α β where
  members := slices.map fun slice => { remaining := slice }
  log
  state

/-- Nobody has anything left to do. -/
def Finished (team : Team σ α β) : Prop := ∀ m ∈ team.members, m.Finished

/-- What all workers have put out, joined in their order. -/
def outputs (team : Team σ α β) : List β := team.members.flatMap (·.outputs)

/-- One of the workers does the next thing. -/
inductive Acts (label : String) (total : Nat) (task : Task σ α β) :
    Team σ α β → Team σ α β → Prop
  /-- It takes its next input. -/
  | take {team : Team σ α β} {first others : List (Member α β)} {x : α} {xs : List α}
      {outputs : List β} (h : team.members = first ++ ⟨x :: xs, outputs, .idle⟩ :: others) :
      Acts label total task team
        { team with
          members := first ++ ⟨xs, outputs ++ (task x team.state).1.outputs,
            .working (task x team.state).1.messages (task x team.state).1.ending⟩ :: others
          state := (task x team.state).2
          taken := team.taken ++ [x] }
  /-- Its task says something. -/
  | say {team : Team σ α β} {first others : List (Member α β)} {xs : List α} {outputs : List β}
      {m : Message} {ms : List Message} {ending : Ending}
      (h : team.members = first ++ ⟨xs, outputs, .working (m :: ms) ending⟩ :: others) :
      Acts label total task team
        { team with
          members := first ++ ⟨xs, outputs, .working ms ending⟩ :: others
          log := team.log.add m }
  /-- Its input is processed. -/
  | succeed {team : Team σ α β} {first others : List (Member α β)} {xs : List α}
      {outputs : List β} (h : team.members = first ++ ⟨xs, outputs, .working [] .done⟩ :: others) :
      Acts label total task team
        { team with
          members := first ++ ⟨xs, outputs, .processed⟩ :: others
          succeeded := team.succeeded + 1 }
  /-- Its input has failed, and it drops the rest of its slice. -/
  | fail {team : Team σ α β} {first others : List (Member α β)} {xs : List α} {outputs : List β}
      {e : TaskError}
      (h : team.members = first ++ ⟨xs, outputs, .working [] (.failed e)⟩ :: others) :
      Acts label total task team
        { team with
          members := first ++ ⟨[], outputs, .idle⟩ :: others
          log := team.log.error s!"{label}: {e.message}" }
  /-- It moves the counter, which hands out the next number. -/
  | count {team : Team σ α β} {first others : List (Member α β)} {xs : List α} {outputs : List β}
      (h : team.members = first ++ ⟨xs, outputs, .processed⟩ :: others) :
      Acts label total task team
        { team with
          members := first ++ ⟨xs, outputs, .counted (team.done + 1)⟩ :: others
          done := team.done + 1
          handed := team.handed ++ [team.done + 1] }
  /-- It reports its number. -/
  | report {team : Team σ α β} {first others : List (Member α β)} {xs : List α} {outputs : List β}
      {number : Nat} (h : team.members = first ++ ⟨xs, outputs, .counted number⟩ :: others) :
      Acts label total task team
        { team with
          members := first ++ ⟨xs, outputs, .idle⟩ :: others
          log := team.log.progress label number total }

variable {label : String} {total : Nat} {task : Task σ α β} {step : α → Step β}
  {team before after : Team σ α β}

/-! ## Balanced books -/

/-- **The books of a team** that has begun with a state and has certain inputs to process. -/
structure Balanced (task : Task σ α β) (step : α → Step β) (processed : List α) (initial : σ)
    (team : Team σ α β) : Prop where
  /-- What has been taken and what will be are the inputs to process. -/
  taken_perm : (team.taken ++ team.members.flatMap (·.coming step)).Perm processed
  /-- What is put out does not depend on the order. -/
  promised_eq : team.members.flatMap (·.promised step) = processed.flatMap fun x => (step x).outputs
  /-- The state has been changed by the inputs in the order in which they were taken. -/
  state_eq : team.state = team.taken.foldl (fun s x => (task x s).2) initial
  /-- The counter has handed out one number after the other. -/
  handed_eq : team.handed = (List.range team.done).map (· + 1)
  /-- It lags behind by the inputs that are waiting to be counted. -/
  succeeded_eq : team.done + (team.members.map (·.waiting)).sum = team.succeeded
  /-- Every input that was taken and does not fail is counted or will be. -/
  done_eq : team.done + (team.members.map (·.uncounted)).sum =
    team.taken.countP fun x => (step x).isDone

/-- Nobody has begun, so everything is to come. -/
theorem balanced_start (task : Task σ α β) (step : α → Step β) (slices : List (List α)) (log : Log)
    (state : σ) :
    (start slices log state : Team σ α β).Balanced task step
      (slices.flatMap (Pool.reached step)) state where
  taken_perm := by
    simp only [start, List.flatMap_map, List.nil_append, Member.coming]
    exact .refl _
  promised_eq := by
    simp only [start, List.flatMap_map, Member.promised, Member.coming, List.nil_append,
      List.flatMap_assoc]
  state_eq := rfl
  handed_eq := rfl
  succeeded_eq := by simp [start, Member.waiting, Function.comp_def]
  done_eq := by simp [start, Member.uncounted, Function.comp_def]

/-- An input that is taken is no longer to come, but all that comes behind it is. -/
theorem coming_take (x : α) (xs : List α) (outputs later : List β) :
    Member.coming step ⟨x :: xs, outputs, .idle⟩ =
      x :: Member.coming step
        (⟨xs, later, .working (step x).messages (step x).ending⟩ : Member α β) := by
  cases hending : (step x).ending with
  | done => exact Pool.reached_cons_of_done hending
  | failed e | panicked p => exact Pool.reached_cons_of_ne (by simp [hending])

/-- An input that is taken will be counted if it does not fail. -/
theorem uncounted_take (x : α) (xs : List α) (outputs : List β) :
    Member.uncounted
        (⟨xs, outputs, .working (step x).messages (step x).ending⟩ : Member α β) =
      [x].countP fun x => (step x).isDone := by
  cases hending : (step x).ending with
  | done => simp [Member.uncounted, Step.isDone, hending]
  | failed e | panicked p => simp [Member.uncounted, Step.isDone, hending]

section

variable {processed : List α} {initial : σ}

/-- One worker moves on, and the others stand still. -/
theorem Balanced.replace (hbalanced : before.Balanced task step processed initial)
    {first others : List (Member α β)} {m next : Member α β}
    (h : before.members = first ++ m :: others) (h' : after.members = first ++ next :: others)
    {fresh : List α} (htaken : after.taken = before.taken ++ fresh)
    (hcoming : m.coming step = fresh ++ next.coming step)
    (hpromised : next.promised step = m.promised step)
    (hstate : after.state = fresh.foldl (fun s x => (task x s).2) before.state)
    (hhanded : after.handed = (List.range after.done).map (· + 1))
    (hsucceeded : after.done + next.waiting + before.succeeded =
      before.done + m.waiting + after.succeeded)
    (hdone : after.done + next.uncounted =
      before.done + m.uncounted + fresh.countP fun x => (step x).isDone) :
    after.Balanced task step processed initial where
  taken_perm := by
    refine List.Perm.trans ?_ hbalanced.taken_perm
    rw [h, h', htaken, List.append_assoc, List.perm_append_left_iff]
    simp only [List.flatMap_append, List.flatMap_cons, hcoming, List.append_assoc]
    exact List.perm_append_comm_assoc ..
  promised_eq := by
    rw [← hbalanced.promised_eq, h, h']
    simp only [List.flatMap_append, List.flatMap_cons, hpromised]
  state_eq := by rw [htaken, List.foldl_append, ← hbalanced.state_eq, hstate]
  handed_eq := hhanded
  succeeded_eq := by
    have hbefore := hbalanced.succeeded_eq
    rw [h] at hbefore
    rw [h']
    simp only [List.map_append, List.map_cons, List.sum_append, List.sum_cons] at hbefore ⊢
    omega
  done_eq := by
    have hbefore := hbalanced.done_eq
    rw [h] at hbefore
    rw [h', htaken, List.countP_append]
    simp only [List.map_append, List.map_cons, List.sum_append, List.sum_cons] at hbefore ⊢
    omega

/-- **The next action keeps the books balanced.** -/
theorem Acts.balanced (hstep : ∀ x s, (task x s).1 = step x)
    (h : Acts label total task before after)
    (hbalanced : before.Balanced task step processed initial) :
    after.Balanced task step processed initial := by
  have hhanded := hbalanced.handed_eq
  -- Each action moves something from one account to another; only counting hands out a number.
  cases h with
  | @take first others x xs outputs h =>
    refine hbalanced.replace h rfl rfl ?_ ?_ rfl hhanded ?_ ?_
    · rw [hstep]
      exact coming_take x xs _ _
    · rw [hstep, Member.promised, Member.promised, coming_take x xs _, List.flatMap_cons,
        List.append_assoc]
    · rfl
    · rw [hstep, uncounted_take]
      rfl
  | @say first others xs outputs m ms ending h =>
    refine hbalanced.replace h rfl (List.append_nil _).symm ?_ ?_ rfl hhanded rfl ?_
    · cases ending <;> rfl
    · cases ending <;> rfl
    · cases ending <;> rfl
  | @succeed first others xs outputs h =>
    exact hbalanced.replace h rfl (List.append_nil _).symm rfl rfl rfl hhanded
      (by simp only [Member.waiting]; omega) rfl
  | @fail first others xs outputs e h =>
    exact hbalanced.replace h rfl (List.append_nil _).symm rfl rfl rfl hhanded rfl rfl
  | @count first others xs outputs h =>
    refine hbalanced.replace h rfl (List.append_nil _).symm rfl rfl rfl ?_ ?_ ?_
    · rw [List.range_succ, List.map_append, ← hhanded, List.map_singleton]
    · simp only [Member.waiting]
    · simp only [Member.uncounted, List.countP_nil]
  | @report first others xs outputs number h =>
    exact hbalanced.replace h rfl (List.append_nil _).symm rfl rfl rfl hhanded rfl rfl

/-- In whatever order the workers act, the books stay balanced. -/
theorem balanced_of_start (hstep : ∀ x s, (task x s).1 = step x) {slices : List (List α)}
    {log : Log} (h : ReflTransGen (Acts label total task) (start slices log initial) team) :
    team.Balanced task step (slices.flatMap (Pool.reached step)) initial := by
  induction h with
  | refl => exact balanced_start task step slices log initial
  | tail _ hacts ih => exact hacts.balanced hstep ih

/-- The counter hands out no number twice. -/
theorem Balanced.nodup_handed (hbalanced : team.Balanced task step processed initial) :
    team.handed.Nodup := by
  rw [hbalanced.handed_eq]
  exact List.nodup_range.map fun a b h => Nat.succ.inj h

/-- As many inputs have been processed as any number says that it has handed out. -/
theorem Balanced.le_succeeded (hbalanced : team.Balanced task step processed initial) {number : Nat}
    (h : number ∈ team.handed) : number ≤ team.succeeded := by
  rw [hbalanced.handed_eq] at h
  obtain ⟨before, hbefore, rfl⟩ := List.mem_map.mp h
  have hlt := List.mem_range.mp hbefore
  have hsucceeded := hbalanced.succeeded_eq
  omega

end

/-! ## The end -/

namespace Finished

/-! Nothing is left to do in the end. -/

theorem coming_eq (h : team.Finished) : team.members.flatMap (·.coming step) = [] := by
  refine List.flatMap_eq_nil_iff.mpr fun m hm => ?_
  obtain ⟨hremaining, hphase⟩ := h m hm
  rw [Member.coming, hphase, hremaining]
  rfl

theorem promised_eq (h : team.Finished) :
    team.members.flatMap (·.promised step) = team.outputs := by
  refine List.flatMap_congr fun m hm => ?_
  obtain ⟨hremaining, hphase⟩ := h m hm
  rw [Member.promised, Member.coming, hphase, hremaining]
  exact List.append_nil _

theorem taken_perm (h : team.Finished) {processed : List α} {initial : σ}
    (hbalanced : team.Balanced task step processed initial) : team.taken.Perm processed := by
  have htaken := hbalanced.taken_perm
  rwa [h.coming_eq, List.append_nil] at htaken

theorem waiting_eq (h : team.Finished) : (team.members.map (·.waiting)).sum = 0 := by
  refine List.sum_eq_zero fun n hn => ?_
  obtain ⟨m, hm, rfl⟩ := List.mem_map.mp hn
  rw [Member.waiting, (h m hm).2]

theorem uncounted_eq (h : team.Finished) : (team.members.map (·.uncounted)).sum = 0 := by
  refine List.sum_eq_zero fun n hn => ?_
  obtain ⟨m, hm, rfl⟩ := List.mem_map.mp hn
  rw [Member.uncounted, (h m hm).2]

/-- All inputs that have been processed to a good end are counted. -/
theorem succeeded_eq (h : team.Finished) {processed : List α} {initial : σ}
    (hbalanced : team.Balanced task step processed initial) :
    team.done = team.succeeded ∧ team.done = processed.countP fun x => (step x).isDone := by
  have hsucceeded := hbalanced.succeeded_eq
  have hdone := hbalanced.done_eq
  rw [h.waiting_eq, Nat.add_zero] at hsucceeded
  rw [h.uncounted_eq, Nat.add_zero, (h.taken_perm hbalanced).countP_eq] at hdone
  exact ⟨hsucceeded, hdone⟩

end Finished

/-- No input of the workers panics. -/
def Calm (step : α → Step β) (team : Team σ α β) : Prop := ∀ m ∈ team.members, m.Calm step

theorem calm_start {slices : List (List α)} {log : Log} {state : σ}
    (h : ∀ slice ∈ slices, ∀ x ∈ slice, ∀ p, (step x).ending ≠ .panicked p) :
    (start slices log state : Team σ α β).Calm step := by
  intro m hm
  obtain ⟨slice, hslice, rfl⟩ := List.mem_map.mp hm
  exact ⟨h slice hslice, fun _ _ => nofun⟩

/-- One worker comes closer to the end, and the others stand still. -/
theorem Calm.replace (hcalm : before.Calm step) {first others : List (Member α β)}
    {m next : Member α β} (h : before.members = first ++ m :: others)
    (h' : after.members = first ++ next :: others)
    (hnext : m.Calm step → next.Calm step ∧ next.left step < m.left step) :
    after.Calm step ∧
      (after.members.map (·.left step)).sum < (before.members.map (·.left step)).sum := by
  simp only [Calm, h, List.forall_mem_append, List.forall_mem_cons] at hcalm
  obtain ⟨hfirst, hm, hothers⟩ := hcalm
  obtain ⟨hnext, hlt⟩ := hnext hm
  simp only [Calm, h, h', List.forall_mem_append, List.forall_mem_cons, List.map_append,
    List.map_cons, List.sum_append, List.sum_cons]
  exact ⟨⟨hfirst, hnext, hothers⟩, by omega⟩

/-- No action makes an input panic, and every action brings the workers closer to the end. -/
theorem Acts.calm (hstep : ∀ x s, (task x s).1 = step x) (h : Acts label total task before after)
    (hcalm : before.Calm step) :
    after.Calm step ∧
      (after.members.map (·.left step)).sum < (before.members.map (·.left step)).sum := by
  -- An input that is taken was one of those that remained, so it does not panic.
  cases h with
  | @take first others x xs outputs h =>
    refine hcalm.replace h rfl ?_
    rintro ⟨hremaining, -⟩
    rw [List.forall_mem_cons] at hremaining
    refine ⟨⟨hremaining.2, ?_⟩, ?_⟩
    · rintro messages p hphase
      obtain ⟨-, hending⟩ := Phase.working.inj hphase
      exact hremaining.1 p (hstep x before.state ▸ hending)
    · simp only [Member.left, hstep, List.map_cons, List.sum_cons]
      omega
  | @say first others xs outputs m ms ending h =>
    refine hcalm.replace h rfl ?_
    rintro ⟨hremaining, hphase⟩
    refine ⟨⟨hremaining, ?_⟩, ?_⟩
    · rintro messages p heq
      obtain ⟨-, rfl⟩ := Phase.working.inj heq
      exact hphase (m :: ms) p rfl
    · simp only [Member.left, List.length_cons]
      omega
  | succeed h | count h | report h =>
    refine hcalm.replace h rfl ?_
    rintro ⟨hremaining, -⟩
    exact ⟨⟨hremaining, fun _ _ => nofun⟩, by simp [Member.left]⟩
  | fail h =>
    refine hcalm.replace h rfl fun _ => ⟨⟨nofun, fun _ _ => nofun⟩, ?_⟩
    simp only [Member.left, List.map_nil, List.sum_nil]
    omega

theorem calm_of_reflTransGen (hstep : ∀ x s, (task x s).1 = step x)
    (h : ReflTransGen (Acts label total task) before after) (hcalm : before.Calm step) :
    after.Calm step := by
  induction h with
  | refl => exact hcalm
  | tail _ hacts ih => exact (hacts.calm hstep ih).1

/-- While somebody has something left to do, somebody can do it. -/
theorem exists_acts (hcalm : team.Calm step) (h : ¬ team.Finished) :
    ∃ next, Acts label total task team next := by
  simp only [Finished, not_forall] at h
  obtain ⟨⟨remaining, outputs, phase⟩, hm, hleft⟩ := h
  obtain ⟨-, hphase⟩ := hcalm _ hm
  obtain ⟨first, others, hmembers⟩ := List.append_of_mem hm
  cases phase with
  | idle =>
    cases remaining with
    | nil => exact absurd ⟨rfl, rfl⟩ hleft
    | cons x xs => exact ⟨_, .take hmembers⟩
  | working messages ending =>
    cases messages with
    | cons m ms => exact ⟨_, .say hmembers⟩
    | nil =>
      cases ending with
      | done => exact ⟨_, .succeed hmembers⟩
      | failed e => exact ⟨_, .fail hmembers⟩
      | panicked p => exact absurd rfl (hphase [] p)
  | processed => exact ⟨_, .count hmembers⟩
  | counted number => exact ⟨_, .report hmembers⟩

/-- **The workers come to an end**, whatever they have done so far. -/
theorem exists_finished (hstep : ∀ x s, (task x s).1 = step x) (team : Team σ α β)
    (hcalm : team.Calm step) :
    ∃ last, ReflTransGen (Acts label total task) team last ∧ last.Finished := by
  exact exists_end (fun team => (team.members.map (·.left step)).sum) (fun _ => exists_acts)
    (fun hacts hcalm => hacts.calm hstep hcalm) team hcalm

/-! ## One worker after the other -/

section

variable (label total)

/-- A task says everything that it has to say. -/
theorem reaches_say {first others : List (Member α β)} {xs : List α} {outputs : List β}
    {ending : Ending} (ms : List Message) (team : Team σ α β)
    (h : team.members = first ++ ⟨xs, outputs, .working ms ending⟩ :: others) :
    ReflTransGen (Acts label total task) team
      { team with
        members := first ++ ⟨xs, outputs, .working [] ending⟩ :: others
        log := team.log.addAll ms } := by
  induction ms generalizing team with
  | nil =>
    have hsame : { team with
        members := first ++ ⟨xs, outputs, .working [] ending⟩ :: others
        log := team.log.addAll [] } = team := by
      rw [← h]
      rfl
    rw [hsame]
  | cons m ms ih => exact .head (.say h) (ih _ rfl)

/-- A worker goes through its slice while the others stand still. -/
theorem reaches_work (hstep : ∀ x s, (task x s).1 = step x) (first others : List (Member α β))
    (xs : List α) (outputs : List β) (hcalm : ∀ x ∈ xs, ∀ p, (step x).ending ≠ .panicked p)
    (team : Team σ α β) (h : team.members = first ++ ⟨xs, outputs, .idle⟩ :: others) :
    ∃ last more, ReflTransGen (Acts label total task) team last ∧
      last.members = first ++ ⟨[], outputs ++ more, .idle⟩ :: others ∧
      Pool.work label total task xs { done := team.done, log := team.log, state := team.state } =
        (.ok more, { done := last.done, log := last.log, state := last.state }) := by
  induction xs generalizing outputs team with
  | nil => exact ⟨team, [], .refl, by rw [h, List.append_nil], rfl⟩
  | cons x xs ih =>
    rw [List.forall_mem_cons] at hcalm
    let taken : Team σ α β :=
      { team with
        members := first ++ ⟨xs, outputs ++ (task x team.state).1.outputs,
          .working (task x team.state).1.messages (task x team.state).1.ending⟩ :: others
        state := (task x team.state).2
        taken := team.taken ++ [x] }
    let said : Team σ α β :=
      { taken with
        members := first ++ ⟨xs, outputs ++ (task x team.state).1.outputs,
          .working [] (task x team.state).1.ending⟩ :: others
        log := team.log.addAll (task x team.state).1.messages }
    have hsaid : ReflTransGen (Acts label total task) team said :=
      .head (.take h) (reaches_say label total _ taken rfl)
    rw [Pool.work]
    cases hending : (task x team.state).1.ending with
    | panicked p => exact absurd (hstep x team.state ▸ hending) (hcalm.1 p)
    | failed e =>
      have hfail : said.members =
          first ++ ⟨xs, outputs ++ (task x team.state).1.outputs, .working [] (.failed e)⟩ ::
            others := by rw [← hending]
      refine ⟨_, (task x team.state).1.outputs, hsaid.tail (.fail hfail), rfl, ?_⟩
      simp only [hending]
      rfl
    | done =>
      have hdone : said.members =
          first ++ ⟨xs, outputs ++ (task x team.state).1.outputs, .working [] .done⟩ ::
            others := by rw [← hending]
      -- The number that the counter hands out is reported at once.
      let reported : Team σ α β :=
        { said with
          members := first ++ ⟨xs, outputs ++ (task x team.state).1.outputs, .idle⟩ :: others
          done := team.done + 1
          succeeded := team.succeeded + 1
          handed := team.handed ++ [team.done + 1]
          log := said.log.progress label (team.done + 1) total }
      have hreported : ReflTransGen (Acts label total task) team reported :=
        ((hsaid.tail (.succeed hdone)).tail (.count rfl)).tail (.report rfl)
      obtain ⟨last, more, hlast, hmembers, hwork⟩ :=
        ih (outputs ++ (task x team.state).1.outputs) hcalm.2 reported rfl
      refine ⟨last, (task x team.state).1.outputs ++ more, hreported.trans hlast, ?_, ?_⟩
      · rw [hmembers, List.append_assoc]
      · simp only [hending]
        have hrest : Pool.work label total task xs
            { done := team.done + 1
              log := (team.log.addAll (task x team.state).1.messages).progress label
                (team.done + 1) total
              state := (task x team.state).2 } = _ := hwork
        rw [hrest]
        rfl

/-- So do all workers, one after the other. -/
theorem reaches_workAll (hstep : ∀ x s, (task x s).1 = step x) (slices : List (List α))
    (hcalm : ∀ slice ∈ slices, ∀ x ∈ slice, ∀ p, (step x).ending ≠ .panicked p)
    (first : List (Member α β)) (hfirst : ∀ m ∈ first, m.Finished) (team : Team σ α β)
    (h : team.members = first ++ slices.map fun slice => { remaining := slice }) :
    ∃ last more, ReflTransGen (Acts label total task) team last ∧ last.Finished ∧
      last.outputs = first.flatMap (·.outputs) ++ more ∧
      Pool.workAll label total task slices
          { done := team.done, log := team.log, state := team.state } =
        (more, { done := last.done, log := last.log, state := last.state }) := by
  induction slices generalizing first team with
  | nil =>
    rw [List.map_nil, List.append_nil] at h
    refine ⟨team, [], .refl, fun m hm => hfirst m (h ▸ hm), ?_, rfl⟩
    rw [outputs, h, List.append_nil]
  | cons slice slices ih =>
    rw [List.forall_mem_cons] at hcalm
    obtain ⟨between, some, hbetween, hmembers, hwork⟩ :=
      reaches_work label total hstep first _ slice [] hcalm.1 team h
    rw [List.nil_append, List.append_cons] at hmembers
    have hfirst' : ∀ m ∈ first ++ [(⟨[], some, .idle⟩ : Member α β)], m.Finished :=
      List.forall_mem_append.mpr ⟨hfirst, List.forall_mem_singleton.mpr ⟨rfl, rfl⟩⟩
    obtain ⟨last, more, hlast, hfinished, houtputs, hothers⟩ :=
      ih hcalm.2 _ hfirst' between hmembers
    refine ⟨last, some ++ more, hbetween.trans hlast, hfinished, ?_, ?_⟩
    · rw [houtputs, List.flatMap_append, List.flatMap_singleton, List.append_assoc]
    · rw [Pool.workAll, hwork]
      dsimp only
      rw [hothers]

/-- **What a stage does is what its workers do in one of the orders**, if no input panics. -/
theorem exists_execute_eq (hstep : ∀ x s, (task x s).1 = step x) {workers : Nat}
    (hworkers : workers ≠ 0) {inputs : List α}
    (hcalm : ∀ x ∈ inputs, ∀ p, (step x).ending ≠ .panicked p) (log : Log) (state : σ) :
    ∃ last : Team σ α β,
      ReflTransGen (Acts label inputs.length task)
        (start (Partition.slices workers inputs)
          (log.debug s!"{label} ({inputs.length} items, {workers} workers)") state) last ∧
      last.Finished ∧
      Pool.execute label workers task inputs log state =
        (.ok last.outputs, Pool.close label inputs.length last.log, last.state) := by
  let opened := log.debug s!"{label} ({inputs.length} items, {workers} workers)"
  rw [Pool.execute, if_neg hworkers]
  by_cases hone : workers = 1
  · -- A single worker has all inputs for its slice.
    subst hone
    rw [Partition.slices_one, if_pos rfl]
    obtain ⟨last, more, hlast, hmembers, hwork⟩ :=
      reaches_work label inputs.length hstep [] [] inputs [] hcalm (start [inputs] opened state) rfl
    refine ⟨last, hlast, ?_, ?_⟩
    · rw [Finished, hmembers, List.nil_append, List.forall_mem_singleton]
      exact ⟨rfl, rfl⟩
    · have hwork' : Pool.work label inputs.length task inputs { log := opened, state } = _ := hwork
      rw [hwork', outputs, hmembers, List.nil_append, List.flatMap_singleton, List.nil_append]
  · rw [if_neg hone]
    have hslices : ∀ slice ∈ Partition.slices workers inputs, ∀ x ∈ slice, ∀ p,
        (step x).ending ≠ .panicked p :=
      fun slice hslice x hx => hcalm x (Partition.subset_of_mem_cut hslice hx)
    obtain ⟨last, more, hlast, hfinished, houtputs, hwork⟩ :=
      reaches_workAll label inputs.length hstep _ hslices [] (List.forall_mem_nil _)
        (start (Partition.slices workers inputs) opened state) rfl
    refine ⟨last, hlast, hfinished, ?_⟩
    have hwork' : Pool.workAll label inputs.length task (Partition.slices workers inputs)
        { log := opened, state } = _ := hwork
    rw [hwork', houtputs, List.flatMap_nil, List.nil_append]

end

end Team

end MutationLab
