import Mathlib.Data.List.Induction
import Mathlib.Order.Bounds.Basic
import MutationLab.Proofs.Running
import MutationLab.Proofs.Success

/-! # What a trace records

A run activates functions: the one that is called from outside, and one more with each call and each
trampoline that it executes (`Machine.activations`). The depth of an activation is the number of
calls below it. This says nothing about probes; that a traced run records exactly the probes of its
activations, each with its least depth, is what `Machine.mem_trace_call` proves. -/

namespace MutationLab

namespace Trace

/-- A trace with the probes of activations recorded, one after the other. -/
def recordAll (t : Trace) (activations : List (LinkedFunction × Nat)) : Trace :=
  activations.foldl (fun t activation =>
    match activation.1.probe with
    | some probe => t.record probe (UInt32.ofNat activation.2)
    | none => t) t

theorem recordAll_append (t : Trace) (earlier later : List (LinkedFunction × Nat)) :
    t.recordAll (earlier ++ later) = (t.recordAll earlier).recordAll later :=
  List.foldl_append

end Trace

/-- Whether an instruction begins a call. -/
def Code.begins : Code → Bool
  | call .. | dispatch .. => true
  | _ => false

/-- Changing a register keeps the depth of a call. -/
theorem Frame.depth_of_set {frame changed : Frame} {r : Register} {value : Int64}
    (h : frame.set r value = .ok changed) : changed.depth = frame.depth := by
  rw [set] at h
  split at h
  · obtain rfl := Except.ok.inj h
    rfl
  · exact nomatch h

namespace Machine

/-- The function of the call that a state has just begun, and the number of calls below it. -/
def begun : Next → List (LinkedFunction × Nat)
  | .go top below => [(top.function, below.length)]
  | .stop _ => []

/-- What the next step of a call activates. -/
def activated (top : Frame) (next : Next) : List (LinkedFunction × Nat) :=
  match top.function.code[top.position]? with
  | some code => if code.begins then begun next else []
  | none => []

/-- What a run activates from a state on. -/
def activationsFrom (image : Image) (setup : Setup) :
    (fuel : Nat) → Next × Effects → List (LinkedFunction × Nat)
  | 0, _ => []
  | _ + 1, (.stop _, _) => []
  | fuel + 1, (.go top below, e) =>
      let next := step image setup top below e
      activated top next.1 ++ activationsFrom image setup fuel next

/-- What a call from outside activates: its function at depth zero, and what the run activates. -/
def activations (image : Image) (setup : Setup) (fuel index : Nat) (arguments : List Int64)
    (e : Effects) : List (LinkedFunction × Nat) :=
  let start := proceed [] (enter image setup index arguments none 0 e)
  begun start.1 ++ activationsFrom image setup fuel start

/-! ## Recording activations -/

/-- Calls one upon the other, each of which knows how many are below it. -/
def Leveled : List Frame → Prop
  | [] => True
  | frame :: below => frame.depth = below.length ∧ Leveled below

/-- The calls of a state know their depths. -/
def LeveledNext : Next → Prop
  | .go top below => Leveled (top :: below)
  | .stop _ => True

/-- A part of a run has recorded its activations: functions of the image at depths below the
limit. -/
structure Recorded (image : Image) (setup : Setup) (e : Effects)
    (activations : List (LinkedFunction × Nat)) (next : Next × Effects) : Prop where
  trace_eq : next.2.trace = e.trace.recordAll activations
  leveled : LeveledNext next.1
  depth_lt : ∀ activation ∈ activations, activation.2 < setup.maxDepth
  loaded : ∀ activation ∈ activations, ∃ index, image.function? index = some activation.1

section

variable {image : Image} {setup : Setup} {below : List Frame} {e : Effects}

/-- Where nothing is recorded, nothing is activated. -/
theorem Recorded.of_trace_eq {next : Next × Effects} (htrace : next.2.trace = e.trace)
    (hleveled : LeveledNext next.1) : Recorded image setup e [] next :=
  ⟨htrace, hleveled, nofun, nofun⟩

variable (hbelow : Leveled below)

include hbelow

/-- Going on in the same call keeps its depth. -/
theorem leveled_resume {x : Except Trap Frame}
    (h : ∀ top, x = .ok top → top.depth = below.length) :
    LeveledNext (resume below e x).1 := by
  cases x with
  | error trap => trivial
  | ok top => exact ⟨h top rfl, hbelow⟩

/-- Leaving a call begins none. -/
theorem recorded_leave (result : Option Register) (value : Int64) :
    Recorded image setup e [] (leave result value below e) := by
  refine .of_trace_eq (by rw [leave_snd]) ?_
  cases below with
  | nil => trivial
  | cons caller below =>
    cases result with
    | none => exact hbelow
    | some dst =>
      refine leveled_resume hbelow.2 fun top htop => ?_
      rw [Frame.depth_of_set htop]
      exact hbelow.1

variable (htracing : setup.tracing = true)

include htracing

/-- Beginning a call records its activation. -/
theorem recorded_enter (index : Nat) (arguments : List Int64) (result : Option Register)
    {depth : Nat} (hdepth : depth = below.length) :
    Recorded image setup e
      (begun (proceed below (enter image setup index arguments result depth e)).1)
      (proceed below (enter image setup index arguments result depth e)) := by
  subst hdepth
  cases hfunction : image.function? index with
  | none =>
    rw [enter, hfunction]
    exact .of_trace_eq rfl trivial
  | some f =>
    by_cases hlimit : setup.maxDepth ≤ below.length
    · rw [enter_of_le hfunction hlimit]
      exact .of_trace_eq rfl trivial
    · by_cases harity : f.params.toNat = arguments.length
      · rw [enter_of_eq hfunction hlimit harity]
        refine ⟨?_, ⟨rfl, hbelow⟩, ?_, ?_⟩
        · rw [proceed, begun, Trace.recordAll, List.foldl_cons, List.foldl_nil, Effects.pass,
            htracing, Frame.function_begin]
          cases f.probe <;> rfl
        · intro activation h
          obtain rfl := List.mem_singleton.mp h
          exact Nat.lt_of_not_le hlimit
        · intro activation h
          obtain rfl := List.mem_singleton.mp h
          exact ⟨index, hfunction⟩
      · rw [enter_of_ne hfunction hlimit harity]
        exact .of_trace_eq rfl trivial

/-- **An instruction records what it activates.** -/
theorem recorded_execute (code : Code) {top : Frame} (hdepth : top.depth = below.length) :
    Recorded image setup e
      (if code.begins then begun (execute image setup code top below e).1 else [])
      (execute image setup code top below e) := by
  have hset : ∀ {dst : Register} {value : Int64} {frame : Frame},
      top.set dst value = .ok frame → frame.depth = below.length :=
    fun h => (Frame.depth_of_set h).trans hdepth
  -- Only calls and trampolines enter a function. All else keeps the trace, and a call that goes on
  -- stays at its depth.
  cases code with
  | const dst value =>
    exact .of_trace_eq (by rw [execute, resume_snd]) (leveled_resume hbelow fun _ => hset)
  | binary dst kind lhs rhs =>
    refine .of_trace_eq (by rw [execute, resume_snd]) (leveled_resume hbelow fun frame h => ?_)
    obtain ⟨a, -, h⟩ := bind_eq_ok_iff.mp h
    obtain ⟨b, -, h⟩ := bind_eq_ok_iff.mp h
    split at h
    · exact hset h
    · cases h
  | compare dst predicate lhs rhs =>
    refine .of_trace_eq (by rw [execute, resume_snd]) (leveled_resume hbelow fun frame h => ?_)
    obtain ⟨a, -, h⟩ := bind_eq_ok_iff.mp h
    obtain ⟨b, -, h⟩ := bind_eq_ok_iff.mp h
    exact hset h
  | call dst callee args =>
    rw [execute]
    cases top.getAll args with
    | error trap => exact .of_trace_eq rfl trivial
    | ok values =>
      have hlength : top.depth + 1 = (top :: below).length := by
        rw [hdepth, List.length_cons]
      have hleveled : Leveled (top :: below) := ⟨hdepth, hbelow⟩
      exact recorded_enter hleveled htracing callee values dst hlength
  | jump target => exact .of_trace_eq rfl ⟨hdepth, hbelow⟩
  | branch cond thenTarget elseTarget =>
    refine .of_trace_eq (by rw [execute, resume_snd]) (leveled_resume hbelow fun frame h => ?_)
    obtain ⟨value, -, h⟩ := bind_eq_ok_iff.mp h
    obtain rfl := Except.ok.inj h
    exact hdepth
  | «return» value =>
    cases value with
    | none => exact recorded_leave hbelow top.result 0
    | some r =>
      rw [execute]
      cases top.get r with
      | error trap => exact .of_trace_eq rfl trivial
      | ok value => exact recorded_leave hbelow top.result value
  | print r =>
    rw [execute]
    cases top.get r with
    | error trap => exact .of_trace_eq rfl trivial
    | ok value => exact .of_trace_eq rfl ⟨hdepth, hbelow⟩
  | trap message => exact .of_trace_eq rfl trivial
  | nop => exact .of_trace_eq rfl ⟨hdepth, hbelow⟩
  | dispatch pristine targets =>
    rw [execute]
    exact recorded_enter hbelow htracing _ _ top.result hdepth

/-- **A step records what it activates.** -/
theorem recorded_step {top : Frame} (hdepth : top.depth = below.length) :
    Recorded image setup e (activated top (step image setup top below e).1)
      (step image setup top below e) := by
  rw [step]
  dsimp only
  split
  · have hnone : activated top (.stop (.error .timeout)) = [] := by
      rw [activated]
      split
      · exact ite_self _
      · rfl
    rw [hnone]
    exact .of_trace_eq rfl trivial
  · cases hcode : top.function.code[top.position]? with
    | none =>
      rw [activated, hcode]
      exact .of_trace_eq rfl trivial
    | some code =>
      rw [activated, hcode]
      -- Counting the step leaves the trace as it is.
      let counted : Effects := { e with steps := e.steps + 1 }
      let moved : Frame := { top with position := top.position + 1 }
      have hexecute : Recorded image setup counted
          (if code.begins then begun (execute image setup code moved below counted).1 else [])
          (execute image setup code moved below counted) :=
        recorded_execute hbelow htracing code hdepth
      exact ⟨hexecute.trace_eq, hexecute.leveled, hexecute.depth_lt, hexecute.loaded⟩

end

/-! ## Runs -/

/-- **A run records what it activates.** -/
theorem recorded_runFrom {image : Image} {setup : Setup} (htracing : setup.tracing = true)
    (fuel : Nat) {next : Next × Effects} (hnext : LeveledNext next.1) :
    (runFrom image setup fuel next).2.trace =
        next.2.trace.recordAll (activationsFrom image setup fuel next) ∧
      ∀ activation ∈ activationsFrom image setup fuel next, activation.2 < setup.maxDepth ∧
        ∃ index, image.function? index = some activation.1 := by
  induction fuel generalizing next with
  | zero =>
    obtain ⟨_ | _, e⟩ := next <;> exact ⟨rfl, nofun⟩
  | succ fuel ih =>
    obtain ⟨⟨top, below⟩ | reply, e⟩ := next
    · have hstep : Recorded image setup e (activated top (step image setup top below e).1)
          (step image setup top below e) := recorded_step hnext.2 htracing hnext.1
      obtain ⟨htrace, hrest⟩ := ih hstep.leveled
      rw [runFrom, run_succ, activationsFrom]
      refine ⟨?_, fun activation h => ?_⟩
      · rw [htrace, hstep.trace_eq, Trace.recordAll_append]
      · obtain h | h := List.mem_append.mp h
        · exact ⟨hstep.depth_lt activation h, hstep.loaded activation h⟩
        · exact hrest activation h
    · exact ⟨rfl, nofun⟩

end Machine

/-! ## Traces -/

namespace Trace

/-- The depths at which activations pass a probe. -/
def depths (activations : List (LinkedFunction × Nat)) (probe : UInt32) : Set Nat :=
  {depth | ∃ f, (f, depth) ∈ activations ∧ f.probe = some probe}

section

variable {activations : List (LinkedFunction × Nat)} {f : LinkedFunction} {depth : Nat}
  {probe : UInt32}

/-- One more activation adds its depth for its own probe. -/
theorem depths_append_of_eq (h : f.probe = some probe) :
    depths (activations ++ [(f, depth)]) probe = insert depth (depths activations probe) := by
  ext d
  simp only [depths, List.mem_append, List.mem_singleton, Prod.mk.injEq, Set.mem_ofPred_eq,
    Set.mem_insert_iff]
  constructor
  · rintro ⟨g, hg | ⟨rfl, rfl⟩, hprobe⟩
    · exact .inr ⟨g, hg, hprobe⟩
    · exact .inl rfl
  · rintro (rfl | ⟨g, hg, hprobe⟩)
    · exact ⟨f, .inr ⟨rfl, rfl⟩, h⟩
    · exact ⟨g, .inl hg, hprobe⟩

/-- It adds nothing for any other. -/
theorem depths_append_of_ne (h : f.probe ≠ some probe) :
    depths (activations ++ [(f, depth)]) probe = depths activations probe := by
  ext d
  simp only [depths, List.mem_append, List.mem_singleton, Prod.mk.injEq, Set.mem_ofPred_eq]
  constructor
  · rintro ⟨g, hg | ⟨rfl, -⟩, hprobe⟩
    · exact ⟨g, hg, hprobe⟩
    · exact absurd hprobe h
  · rintro ⟨g, hg, hprobe⟩
    exact ⟨g, .inl hg, hprobe⟩

end

/-- A trace holds activations: each probe that they pass, once and with its least depth. -/
structure Holds (activations : List (LinkedFunction × Nat)) (t : Trace) : Prop where
  ascending : t.probes.Pairwise (· < ·)
  mem_probes : ∀ probe, probe ∈ t.probes ↔ (depths activations probe).Nonempty
  least : ∀ hit ∈ t, IsLeast (depths activations hit.1) hit.2.toNat

/-- Without a probe an activation leaves the trace as it is. -/
theorem Holds.append_of_none {activations : List (LinkedFunction × Nat)} {t : Trace}
    (h : Holds activations t) {f : LinkedFunction} (hprobe : f.probe = none) (depth : Nat) :
    Holds (activations ++ [(f, depth)]) t := by
  have hsame : ∀ probe, depths (activations ++ [(f, depth)]) probe = depths activations probe := by
    intro probe
    refine depths_append_of_ne ?_
    rw [hprobe]
    exact nofun
  refine ⟨h.ascending, fun probe => ?_, fun hit hhit => ?_⟩
  · rw [hsame]
    exact h.mem_probes probe
  · rw [hsame]
    exact h.least hit hhit

/-- Recording the probe of one more activation. -/
theorem Holds.record {activations : List (LinkedFunction × Nat)} {t : Trace}
    (h : Holds activations t) {f : LinkedFunction} {probe : UInt32} (hprobe : f.probe = some probe)
    {depth : Nat} (hdepth : depth < UInt32.size) :
    Holds (activations ++ [(f, depth)]) (t.record probe (UInt32.ofNat depth)) := by
  have hkey : ∀ hit : UInt32 × UInt32, (hit.1, min hit.2 (UInt32.ofNat depth)).1 = hit.1 :=
    fun _ => rfl
  have htoNat : (UInt32.ofNat depth).toNat = depth := UInt32.toNat_ofNat_of_lt' hdepth
  have hothers : ∀ other, other ≠ probe →
      depths (activations ++ [(f, depth)]) other = depths activations other := by
    intro other hne
    refine depths_append_of_ne ?_
    rw [hprobe]
    exact fun h => hne (Option.some.inj h).symm
  rw [record_eq_upsert]
  refine ⟨pairwise_map_key_upsert hkey h.ascending, fun other => ?_, fun hit hhit => ?_⟩
  · rw [probes, mem_map_key_upsert hkey, ← probes, h.mem_probes]
    by_cases heq : other = probe
    · subst heq
      rw [depths_append_of_eq hprobe]
      exact iff_of_true (.inl rfl) (Set.insert_nonempty _ _)
    · rw [hothers other heq]
      exact or_iff_right heq
  · obtain ⟨hhit, hne⟩ | ⟨old, hold, hkey, rfl⟩ | ⟨rfl, hnew⟩ := of_mem_upsert h.ascending hhit
    · rw [hothers _ hne]
      exact h.least hit hhit
    · -- The probe has been passed before, so the lesser depth is kept.
      dsimp only at hkey ⊢
      rw [hkey, depths_append_of_eq hprobe, toNat_min, htoNat, Nat.min_comm]
      exact hkey ▸ (h.least old hold).insert depth
    · -- The probe is passed for the first time.
      have hnone : depths activations probe = ∅ := by
        rw [← Set.not_nonempty_iff_eq_empty, ← h.mem_probes]
        exact hnew
      rw [depths_append_of_eq hprobe, hnone, htoNat]
      simp [isLeast_singleton]

/-- Recording one more activation. -/
theorem Holds.recordAll_singleton {activations : List (LinkedFunction × Nat)} {t : Trace}
    (h : Holds activations t) {f : LinkedFunction} {depth : Nat} (hdepth : depth < UInt32.size) :
    Holds (activations ++ [(f, depth)]) (t.recordAll [(f, depth)]) := by
  rw [recordAll, List.foldl_cons, List.foldl_nil]
  cases hprobe : f.probe with
  | none => exact h.append_of_none hprobe depth
  | some probe => exact h.record hprobe hdepth

/-- **A trace holds the activations that were recorded**, as long as depths are 32-bit numbers. -/
theorem holds_recordAll {activations : List (LinkedFunction × Nat)}
    (h : ∀ activation ∈ activations, activation.2 < UInt32.size) :
    Holds activations (recordAll [] activations) := by
  induction activations using List.reverseRecOn with
  | nil => exact ⟨List.Pairwise.nil, fun probe => by simp [recordAll, probes, depths], nofun⟩
  | append_singleton activations activation ih =>
    rw [List.forall_mem_append] at h
    rw [recordAll_append]
    exact (ih h.1).recordAll_singleton (h.2 _ List.mem_cons_self)

/-- What stands in a trace are the probes that were passed, with their least depths. -/
theorem Holds.mem_iff {activations : List (LinkedFunction × Nat)} {t : Trace}
    (h : Holds activations t) {probe depth : UInt32} :
    (probe, depth) ∈ t ↔ IsLeast (depths activations probe) depth.toNat := by
  constructor
  · intro hmem
    exact h.least _ hmem
  · intro hleast
    obtain ⟨⟨other, found⟩, hmem, rfl⟩ :=
      List.mem_map.mp ((h.mem_probes probe).mpr ⟨_, hleast.1⟩)
    obtain rfl : found = depth := UInt32.toNat_inj.mp ((h.least _ hmem).unique hleast)
    exact hmem

end Trace

namespace Machine

section

variable {setup : Setup} (htracing : setup.tracing = true) (image : Image) (fuel index : Nat)
  (arguments : List Int64)

include htracing

/-- A traced call records its activations, which are of functions of the image and at depths below
the limit. -/
theorem recorded_call (e : Effects) :
    (call image setup fuel index arguments e).2.trace =
        e.trace.recordAll (activations image setup fuel index arguments e) ∧
      ∀ activation ∈ activations image setup fuel index arguments e,
        activation.2 < setup.maxDepth ∧ ∃ index, image.function? index = some activation.1 := by
  have henter : Recorded image setup e
      (begun (proceed [] (enter image setup index arguments none 0 e)).1)
      (proceed [] (enter image setup index arguments none 0 e)) :=
    recorded_enter (show Leveled [] from trivial) htracing index arguments none rfl
  obtain ⟨htrace, hrun⟩ := recorded_runFrom htracing fuel henter.leveled
  refine ⟨?_, fun activation h => ?_⟩
  · rw [call_eq, htrace, henter.trace_eq, ← Trace.recordAll_append]
    rfl
  · obtain h | h := List.mem_append.mp h
    · exact ⟨henter.depth_lt activation h, henter.loaded activation h⟩
    · exact hrun activation h

/-- **A traced call passes exactly the probes of its activations**, each with its least depth. -/
theorem mem_trace_call (hdepth : setup.maxDepth ≤ UInt32.size) {probe depth : UInt32} :
    (probe, depth) ∈ (call image setup fuel index arguments {}).2.trace ↔
      IsLeast (Trace.depths (activations image setup fuel index arguments {}) probe)
        depth.toNat := by
  obtain ⟨htrace, hactivations⟩ := recorded_call htracing image fuel index arguments {}
  rw [htrace]
  exact (Trace.holds_recordAll fun activation h =>
    (hactivations activation h).1.trans_le hdepth).mem_iff

end

end Machine

end MutationLab
