import Mathlib.Algebra.GroupWithZero.Nat
import Mathlib.Data.List.Forall2
import MutationLab.Proofs.Lockstep

/-! # Calls one after the other

A machine serves call after call and keeps what they leave behind: the number of steps, the output
and the trace. Nothing else passes from one call to the next. A machine that has been used runs in
lockstep with a fresh one, what it left behind earlier being put before whatever it leaves behind
now (`Machine.usedLockstep`); so each call is answered as a fresh machine answers it, and what a
whole session leaves behind is made of what its calls leave behind on fresh machines
(`Machine.calls_share_no_state`). -/

namespace MutationLab

/-- A call from outside. -/
inductive Request where
  /-- Call the function at a position. -/
  | index (index : Nat) (arguments : List Int64)
  /-- Call the function with a symbol. -/
  | symbol (symbol : String) (arguments : List Int64)
  deriving DecidableEq, Repr

/-- How a call ends, and what has been left behind then. -/
@[ext]
structure Answer where
  reply : Except Trap Int64
  effects : Effects
  deriving DecidableEq, Repr

namespace Example

/-- A function that prints its argument and calls another one, which divides by it. -/
def dividing : Image where
  functions := #[
    { symbol := "outer", params := 1, registers := 2, probe := some 0,
      code := #[.print 0, .call (some 1) 1 [0], .return (some 1)] },
    { symbol := "inner", params := 1, registers := 3, probe := some 1,
      code := #[.const 1 100, .binary 2 .sDiv 1 0, .return (some 2)] }]

/-- A setup that records probes. -/
def traced : Setup := { tracing := true }

/-- Three calls, the first of which divides by zero. -/
def divisions : List Request := [.symbol "outer" [0], .index 1 [4], .symbol "outer" [4]]

/-- How they end on fresh machines. -/
def quotients : List Answer := [
  ⟨.error (.divisionByZero "inner"), { steps := 4, stdout := "0\n", trace := [(0, 0), (1, 1)] }⟩,
  ⟨.ok 25, { steps := 3, trace := [(1, 0)] }⟩,
  ⟨.ok 25, { steps := 6, stdout := "4\n", trace := [(0, 0), (1, 1)] }⟩]

end Example

/-! ## Traces of several calls -/

namespace Trace

/-- The hits of a later trace recorded in an earlier one. -/
def merge (t later : Trace) : Trace := later.foldl (fun t hit => t.record hit.1 hit.2) t

theorem merge_cons (t : Trace) (hit : UInt32 × UInt32) (hits : Trace) :
    t.merge (hit :: hits) = (t.record hit.1 hit.2).merge hits := rfl

/-- The order in which two hits are recorded does not matter. -/
theorem record_comm (probe depth other found : UInt32) (t : Trace) :
    (t.record probe depth).record other found = (t.record other found).record probe depth := by
  -- Where a hit is put depends only on how its probe compares with the other one and the first.
  induction t with
  | nil => grind [record]
  | cons hit hits ih => grind [record]

/-- Of two hits of one probe only the lesser depth is kept. -/
theorem record_record (probe depth found : UInt32) (t : Trace) :
    (t.record probe found).record probe depth = t.record probe (min found depth) := by
  induction t with
  | nil => grind [record]
  | cons hit hits ih => grind [record]

/-- So a hit may be recorded before a whole trace or behind it. -/
theorem record_merge (probe depth : UInt32) (t later : Trace) :
    (t.record probe depth).merge later = (t.merge later).record probe depth := by
  induction later generalizing t with
  | nil => rfl
  | cons hit hits ih => rw [merge_cons, merge_cons, record_comm, ih]

/-- **Recording goes on in the later trace** as it goes on in both of them together. -/
theorem merge_record (probe depth : UInt32) (t later : Trace) :
    t.merge (later.record probe depth) = (t.merge later).record probe depth := by
  induction later generalizing t with
  | nil => rfl
  | cons hit hits ih =>
    obtain ⟨other, found⟩ := hit
    rw [record]
    split
    · -- The later trace has a hit of this probe, which is changed.
      rename_i heq
      subst heq
      rw [merge_cons, merge_cons, record_merge, record_merge, record_record]
    · split
      · rw [merge_cons, record_merge]
      · rw [merge_cons, merge_cons, ih]

/-- Recording a hit keeps the probes ascending. -/
theorem pairwise_record {t : Trace} (h : t.probes.Pairwise (· < ·)) (probe depth : UInt32) :
    (t.record probe depth).probes.Pairwise (· < ·) := by
  have hkey : ∀ hit : UInt32 × UInt32, (hit.1, min hit.2 depth).1 = hit.1 := fun _ => rfl
  rw [record_eq_upsert]
  exact pairwise_map_key_upsert hkey h

/-- So does recording a whole trace. -/
theorem pairwise_merge {t : Trace} (h : t.probes.Pairwise (· < ·)) (later : Trace) :
    (t.merge later).probes.Pairwise (· < ·) := by
  induction later generalizing t with
  | nil => exact h
  | cons hit hits ih => exact ih (pairwise_record h hit.1 hit.2)

/-- A probe that is not in a trace has no depth there. -/
theorem lookup_eq_none {t : Trace} {probe : UInt32} (h : probe ∉ t.probes) :
    t.lookup probe = none := by
  rw [List.lookup_eq_none_iff]
  intro hit hhit
  rw [bne_iff_ne]
  rintro rfl
  exact h (List.mem_map_of_mem hhit)

/-- A hit of another probe does not matter. -/
theorem lookup_cons_of_ne {probe other : UInt32} (h : probe ≠ other) (depth : UInt32) (t : Trace) :
    List.lookup probe ((other, depth) :: t) = t.lookup probe := by
  rw [List.lookup_cons, beq_false_of_ne h]

/-- Recording a hit leaves the depths of other probes alone. -/
theorem lookup_record_of_ne {probe other : UInt32} (h : probe ≠ other) (depth : UInt32)
    (t : Trace) : (t.record other depth).lookup probe = t.lookup probe := by
  induction t with
  | nil => exact lookup_cons_of_ne h depth []
  | cons hit hits ih =>
    rw [record]
    split
    · rename_i heq
      rw [lookup_cons_of_ne (heq ▸ h), lookup_cons_of_ne (heq ▸ h)]
    · split
      · exact lookup_cons_of_ne h depth _
      · rw [List.lookup_cons, List.lookup_cons, ih]

/-- Its own probe has the lesser of the depths then. -/
theorem lookup_record_self {t : Trace} (h : t.probes.Pairwise (· < ·)) (probe depth : UInt32) :
    (t.record probe depth).lookup probe = (t.lookup probe).merge min (some depth) := by
  induction t with
  | nil => exact List.lookup_cons_self
  | cons hit hits ih =>
    obtain ⟨other, found⟩ := hit
    rw [record]
    split
    · rename_i heq
      subst heq
      rw [List.lookup_cons_self, List.lookup_cons_self]
      rfl
    · rename_i hne
      split
      · -- All probes of the trace come behind this one.
        rename_i hlt
        have hnew : probe ∉ probes ((other, found) :: hits) := by
          rw [probes, List.map_cons, List.mem_cons, not_or]
          refine ⟨hne, fun hmem => ?_⟩
          exact UInt32.lt_asymm hlt ((List.pairwise_cons.mp h).1 probe hmem)
        rw [List.lookup_cons_self, lookup_eq_none hnew]
        rfl
      · rw [lookup_cons_of_ne hne, lookup_cons_of_ne hne, ih (List.pairwise_cons.mp h).2]

/-- **The depth of a probe in two traces** that were recorded one after the other is the lesser of
its depths. -/
theorem lookup_merge {t later : Trace} (h : t.probes.Pairwise (· < ·))
    (hlater : later.probes.Pairwise (· < ·)) (probe : UInt32) :
    (t.merge later).lookup probe = (t.lookup probe).merge min (later.lookup probe) := by
  induction later generalizing t with
  | nil => exact Option.merge_none_right.symm
  | cons hit hits ih =>
    obtain ⟨other, found⟩ := hit
    obtain ⟨hfirst, hrest⟩ := List.pairwise_cons.mp hlater
    rw [merge_cons, ih (pairwise_record h other found) hrest]
    by_cases heq : probe = other
    · subst heq
      have hnone : List.lookup probe hits = none :=
        lookup_eq_none fun hmem => UInt32.lt_irrefl _ (hfirst probe hmem)
      rw [lookup_record_self h, List.lookup_cons_self, hnone, Option.merge_none_right]
    · rw [lookup_record_of_ne heq, lookup_cons_of_ne heq]

end Trace

/-! ## Machines that have been used -/

/-- What has been left behind in all when more is left behind later. -/
def Effects.append (earlier later : Effects) : Effects where
  steps := earlier.steps + later.steps
  stdout := earlier.stdout ++ later.stdout
  trace := earlier.trace.merge later.trace

/-- The least depth at which a probe was passed, if it was. -/
def Effects.depth? (probe : UInt32) (e : Effects) : Option UInt32 := e.trace.lookup probe

namespace Effects

variable (earlier later : Effects)

/-- Nothing is added by nothing. -/
@[simp] theorem append_empty : earlier.append {} = earlier := by
  obtain ⟨steps, stdout, trace⟩ := earlier
  exact congrArg (Effects.mk steps · trace) String.append_empty

/-- Steps are counted on. -/
theorem tick_append : (earlier.append later).tick = earlier.append later.tick := rfl

/-- Output goes on behind what has been printed. -/
theorem print_append (text : String) :
    (earlier.append later).print text = earlier.append (later.print text) := by
  rw [print, append, append, print, String.append_assoc]

/-- Probes are recorded together with those that were passed earlier. -/
theorem pass_append (setup : Setup) (f : LinkedFunction) (depth : Nat) :
    (earlier.append later).pass setup f depth = earlier.append (later.pass setup f depth) := by
  rw [pass, pass]
  split
  · rw [append, append, Trace.merge_record]
  · rfl

/-- Steps add up. -/
theorem steps_foldl_append (es : List Effects) (start : Effects) :
    (es.foldl append start).steps = start.steps + (es.map steps).sum := by
  induction es generalizing start with
  | nil => rfl
  | cons e es ih => rw [List.foldl_cons, ih, List.map_cons, List.sum_cons, ← Nat.add_assoc, append]

/-- Outputs are put one behind the other. -/
theorem stdout_foldl_append (es : List Effects) (start : Effects) :
    (es.foldl append start).stdout = start.stdout ++ String.join (es.map stdout) := by
  induction es generalizing start with
  | nil => exact String.append_empty.symm
  | cons e es ih =>
    rw [List.foldl_cons, ih, List.map_cons, String.join_cons, ← String.append_assoc, append]

/-- The probes are in order then. -/
theorem pairwise_foldl_append (es : List Effects) {start : Effects}
    (h : start.trace.probes.Pairwise (· < ·)) :
    (es.foldl append start).trace.probes.Pairwise (· < ·) := by
  induction es generalizing start with
  | nil => exact h
  | cons e es ih => exact ih (Trace.pairwise_merge h e.trace)

/-- **Of each probe the least depth is kept.** -/
theorem depth?_foldl_append {es : List Effects}
    (h : ∀ e ∈ es, e.trace.probes.Pairwise (· < ·)) {start : Effects}
    (hstart : start.trace.probes.Pairwise (· < ·)) (probe : UInt32) :
    (es.foldl append start).depth? probe =
      (start.depth? probe).merge min (es.filterMap (depth? probe)).min? := by
  induction es generalizing start with
  | nil => exact Option.merge_none_right.symm
  | cons e es ih =>
    rw [List.forall_mem_cons] at h
    have hnext : (start.append e).trace.probes.Pairwise (· < ·) :=
      Trace.pairwise_merge hstart e.trace
    have hdepth : (start.append e).depth? probe =
        (start.depth? probe).merge min (e.depth? probe) := Trace.lookup_merge hstart h.1 probe
    rw [List.foldl_cons, ih h.2 hnext, hdepth, (Option.associative_merge min).assoc]
    cases hpassed : e.depth? probe with
    | none => rw [List.filterMap_cons_none hpassed, Option.merge_none_left]
    | some depth =>
      rw [List.filterMap_cons_some hpassed, List.min?_cons]
      cases (es.filterMap (depth? probe)).min? <;> rfl

end Effects

namespace Machine

/-- Call what is requested. -/
def serve (image : Image) (setup : Setup) (fuel : Nat) (request : Request) (e : Effects) :
    Option (Except Trap Int64) × Effects :=
  match request with
  | .index index arguments => call image setup fuel index arguments e
  | .symbol symbol arguments => callSymbol image setup fuel symbol arguments e

/-- A machine that has left something behind ends a call with an answer. -/
def Answers (image : Image) (setup : Setup) (e : Effects) (request : Request) (answer : Answer) :
    Prop :=
  ∃ fuel, serve image setup fuel request e = (some answer.reply, answer.effects)

/-- A machine ends calls one after the other, with these replies. -/
inductive Session (image : Image) (setup : Setup) :
    (start : Effects) → List Request → List (Except Trap Int64) → (final : Effects) → Prop
  | nil (e : Effects) : Session image setup e [] [] e
  | cons {start final : Effects} {request : Request} {requests : List Request} {answer : Answer}
      {replies : List (Except Trap Int64)} (first : Answers image setup start request answer)
      (rest : Session image setup answer.effects requests replies final) :
      Session image setup start (request :: requests) (answer.reply :: replies) final

section

variable {image : Image} {setup : Setup} {e : Effects} {request : Request}

/-- More fuel does not change a call that is over. -/
theorem serve_of_le {fuel more : Nat} {reply : Except Trap Int64} {e' : Effects}
    (h : serve image setup fuel request e = (some reply, e')) (hle : fuel ≤ more) :
    serve image setup more request e = (some reply, e') := by
  cases request with
  | index index arguments => exact call_of_le h hle
  | symbol symbol arguments =>
    rw [serve, callSymbol] at h ⊢
    cases hindex : image.index? symbol with
    | none => rwa [hindex] at h
    | some index =>
      rw [hindex] at h
      exact call_of_le h hle

/-- A call ends in one way only. -/
theorem Answers.unique {answer other : Answer} (h : Answers image setup e request answer)
    (h' : Answers image setup e request other) : answer = other := by
  obtain ⟨fuel, h⟩ := h
  obtain ⟨more, h'⟩ := h'
  have hsame := (serve_of_le h (Nat.le_max_left fuel more)).symm.trans
    (serve_of_le h' (Nat.le_max_right fuel more))
  obtain ⟨hreply, heffects⟩ := Prod.mk.inj hsame
  exact Answer.ext (Option.some.inj hreply) heffects

/-- Each call of a list has an answer exactly when all of them together have. -/
theorem exists_forall₂_iff {requests : List Request} :
    (∃ answers, List.Forall₂ (Answers image setup e) requests answers) ↔
      ∀ request ∈ requests, ∃ answer, Answers image setup e request answer := by
  induction requests with
  | nil => exact iff_of_true ⟨[], .nil⟩ nofun
  | cons request requests ih =>
    rw [List.forall_mem_cons, ← ih]
    constructor
    · rintro ⟨_, hanswers⟩
      obtain _ | ⟨hfirst, hrest⟩ := hanswers
      exact ⟨⟨_, hfirst⟩, ⟨_, hrest⟩⟩
    · rintro ⟨⟨answer, hfirst⟩, ⟨answers, hrest⟩⟩
      exact ⟨answer :: answers, .cons hfirst hrest⟩

end

section

variable {setup : Setup} (hnever : setup.watchdog = .never) (image : Image)

include hnever

/-- **A machine that has been used** runs in lockstep with a fresh one, as long as no watchdog looks
at the number of its steps. -/
def usedLockstep (earlier : Effects) : Lockstep where
  source := image
  target := image
  sourceSetup := setup
  targetSetup := setup
  function := id
  position := id
  effects := earlier.append
  symbol_function _ := rfl
  params_function _ := rfl
  registers_function _ := rfl
  code_function f index := by
    rw [Code.relocate_id, Option.map_id]
    rfl
  function?_position index := Option.map_id.symm ▸ rfl
  position_of_none index _ := id_eq index
  agrees := .refl setup
  stopsAt_iff e := by
    rw [hnever]
    exact iff_of_false (Watchdog.not_stopsAt_never _) (Watchdog.not_stopsAt_never _)
  tick_effects := earlier.tick_append
  print_effects text later := earlier.print_append later text
  pass_effects f depth later := earlier.pass_append later setup f depth

/-- **A call on a used machine** is the call on a fresh one, behind what was left behind before. -/
theorem serve_append (fuel : Nat) (request : Request) (earlier : Effects) :
    serve image setup fuel request earlier =
      Prod.map id earlier.append (serve image setup fuel request {}) := by
  have hstart : earlier = earlier.append {} := earlier.append_empty.symm
  cases request with
  | index index arguments =>
    conv_lhs => rw [hstart]
    exact (usedLockstep hnever image earlier).call_eq fuel index arguments {}
  | symbol symbol arguments =>
    conv_lhs => rw [hstart]
    exact (usedLockstep hnever image earlier).callSymbol_eq Option.map_id'.symm fuel arguments {}

/-- So it ends when the one on a fresh machine ends, with the same reply. -/
theorem answers_append {earlier : Effects} {request : Request} {answer : Answer} :
    Answers image setup earlier request answer ↔
      ∃ fresh, Answers image setup {} request fresh ∧
        answer = ⟨fresh.reply, earlier.append fresh.effects⟩ := by
  simp only [Answers, serve_append hnever image _ request earlier]
  constructor
  · rintro ⟨fuel, h⟩
    rcases hserve : serve image setup fuel request {} with ⟨_ | reply, effects⟩
    · rw [hserve] at h
      exact nomatch (Prod.mk.inj h).1
    · rw [hserve] at h
      obtain ⟨hreply, heffects⟩ := Prod.mk.inj h
      exact ⟨⟨reply, effects⟩, ⟨fuel, hserve⟩,
        Answer.ext (Option.some.inj hreply).symm heffects.symm⟩
  · rintro ⟨fresh, ⟨fuel, h⟩, rfl⟩
    refine ⟨fuel, ?_⟩
    rw [h]
    rfl

/-- What a call leaves behind on a fresh machine has ascending probes. -/
theorem pairwise_trace_of_answers {request : Request} {answer : Answer}
    (h : Answers image setup {} request answer) :
    answer.effects.trace.probes.Pairwise (· < ·) := by
  -- The fresh machine counts as a used one, so the trace is one that has been recorded in another.
  obtain ⟨fresh, -, rfl⟩ := (answers_append hnever image).mp h
  exact Trace.pairwise_merge List.Pairwise.nil fresh.effects.trace

/-- So have those of several calls. -/
theorem pairwise_trace_of_forall₂ {requests : List Request} {answers : List Answer}
    (h : List.Forall₂ (Answers image setup {}) requests answers) :
    ∀ e ∈ answers.map Answer.effects, e.trace.probes.Pairwise (· < ·) := by
  induction h with
  | nil => exact nofun
  | cons hfirst _ ih =>
    exact List.forall_mem_cons.mpr ⟨pairwise_trace_of_answers hnever image hfirst, ih⟩

/-- **A session is made of calls on fresh machines**, and leaves behind what they leave behind, one
after the other. -/
theorem session_iff {start final : Effects} {requests : List Request}
    {replies : List (Except Trap Int64)} :
    Session image setup start requests replies final ↔
      ∃ answers, List.Forall₂ (Answers image setup {}) requests answers ∧
        replies = answers.map Answer.reply ∧
        final = (answers.map Answer.effects).foldl Effects.append start := by
  induction requests generalizing start replies with
  | nil =>
    constructor
    · rintro ⟨⟩
      exact ⟨[], .nil, rfl, rfl⟩
    · rintro ⟨answers, hanswers, rfl, rfl⟩
      obtain ⟨⟩ := hanswers
      exact .nil _
  | cons request requests ih =>
    constructor
    · rintro (_ | ⟨hfirst, hrest⟩)
      obtain ⟨fresh, hfresh, rfl⟩ := (answers_append hnever image).mp hfirst
      obtain ⟨answers, hanswers, rfl, rfl⟩ := ih.mp hrest
      exact ⟨fresh :: answers, .cons hfresh hanswers, rfl, rfl⟩
    · rintro ⟨answers, hanswers, rfl, rfl⟩
      cases hanswers with
      | @cons _ fresh _ answers hfresh hanswers =>
        have hfirst : Answers image setup start request
            ⟨fresh.reply, start.append fresh.effects⟩ :=
          (answers_append hnever image).mpr ⟨fresh, hfresh, rfl⟩
        have hsession := Session.cons hfirst (ih.mpr ⟨answers, hanswers, rfl, rfl⟩)
        exact hsession

end

/-- **Calls share no state.** Take calls from outside, by symbols or at positions, with any
arguments, and make them one after the other on one machine without a watchdog. All of them end
exactly when each of them ends on a fresh machine. Then each has the same value or trap as on a
fresh machine, wherever it fails; what has been printed in the end is what the fresh machines print,
one after the other; as many steps have been made as the fresh machines make together; and the trace
has each probe once, with the least depth that it has in the traces of the fresh machines. -/
theorem calls_share_no_state {setup : Setup} (hnever : setup.watchdog = .never) (image : Image)
    (requests : List Request) :
    ((∃ replies final, Session image setup {} requests replies final) ↔
      ∀ request ∈ requests, ∃ answer, Answers image setup {} request answer) ∧
    ∀ replies final answers, Session image setup {} requests replies final →
      List.Forall₂ (Answers image setup {}) requests answers →
        replies = answers.map Answer.reply ∧
        final.stdout = String.join (answers.map fun answer => answer.effects.stdout) ∧
        final.steps = (answers.map fun answer => answer.effects.steps).sum ∧
        final.trace.probes.Pairwise (· < ·) ∧
        ∀ probe, final.depth? probe =
          (answers.filterMap fun answer => answer.effects.depth? probe).min? := by
  constructor
  · rw [← exists_forall₂_iff]
    constructor
    · rintro ⟨replies, final, hsession⟩
      obtain ⟨answers, hanswers, -⟩ := (session_iff hnever image).mp hsession
      exact ⟨answers, hanswers⟩
    · rintro ⟨answers, hanswers⟩
      exact ⟨_, _, (session_iff hnever image).mpr ⟨answers, hanswers, rfl, rfl⟩⟩
  · intro replies final answers hsession hanswers
    obtain ⟨others, hothers, rfl, rfl⟩ := (session_iff hnever image).mp hsession
    have hunique : Relator.RightUnique (Answers image setup {}) := fun _ _ _ => Answers.unique
    obtain rfl : others = answers := List.right_unique_forall₂' hunique hothers hanswers
    have hempty : ({} : Effects).trace.probes.Pairwise (· < ·) := List.Pairwise.nil
    have hascending := pairwise_trace_of_forall₂ hnever image hanswers
    refine ⟨rfl, ?_, ?_, Effects.pairwise_foldl_append _ hempty, fun probe => ?_⟩
    · rw [Effects.stdout_foldl_append, List.map_map]
      exact String.empty_append
    · rw [Effects.steps_foldl_append, List.map_map]
      exact Nat.zero_add _
    · rw [Effects.depth?_foldl_append hascending hempty, List.filterMap_map]
      exact Option.merge_none_left

/-- `calls_share_no_state` for three calls with a trace. The first one fails within another call,
and nothing of this is left when the others are made. -/
theorem calls_share_no_state_example :
    Example.traced.watchdog = .never ∧
    ∃ replies final, Session Example.dividing Example.traced {} Example.divisions replies final ∧
      replies = [.error (.divisionByZero "inner"), .ok 25, .ok 25] ∧
      final.stdout = "0\n4\n" ∧ final.steps = 13 ∧ final.depth? 1 = some 0 := by
  have hanswers : List.Forall₂ (Answers Example.dividing Example.traced {})
      Example.divisions Example.quotients :=
    .cons ⟨4, by decide +kernel⟩ (.cons ⟨3, by decide +kernel⟩ (.cons ⟨6, by decide +kernel⟩ .nil))
  have hnever : Example.traced.watchdog = .never := rfl
  obtain ⟨hends, hsame⟩ := calls_share_no_state hnever Example.dividing Example.divisions
  obtain ⟨replies, final, hsession⟩ := hends.mpr (exists_forall₂_iff.mp ⟨_, hanswers⟩)
  obtain ⟨hreplies, hstdout, hsteps, -, hdepth⟩ := hsame replies final _ hsession hanswers
  refine ⟨hnever, replies, final, hsession, hreplies, ?_, hsteps, ?_⟩
  · rw [hstdout]
    decide +kernel
  · rw [hdepth]
    decide +kernel

end Machine

end MutationLab
