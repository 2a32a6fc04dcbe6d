import Mathlib.Data.List.Basic
import MutationLab.Application
import MutationLab.Proofs.Success

/-! # Calls on a module

The five steps of applying mutations may be called in any order and any number of times, and some
calls are refused. This file gives calls a type of their own, follows a subject through a sequence
of them, and says for each step what it means that it succeeds (`register_eq_ok`, `clone_eq_ok`,
`excise_eq_ok`, `redirect_eq_ok`, `apply_eq_ok`). What later files know about the steps they know
through these lemmas. -/

namespace MutationLab

/-- A call on a module that is being mutated. -/
inductive Call where
  /-- Register a point. -/
  | register (p : Point)
  /-- Copy the mutated functions. -/
  | clone
  /-- Cut out the copied functions. -/
  | excise
  /-- Put trampolines in their place. -/
  | redirect
  /-- Mutate the copy of a point. -/
  | apply (p : Point)
  deriving DecidableEq, Repr

namespace Call

/-- The point that a call registers. -/
def registers? : Call → Option Point
  | register p => some p
  | _ => none

/-- The point that a call applies. -/
def applies? : Call → Option Point
  | apply p => some p
  | _ => none

end Call

namespace Subject

/-- Make a call. -/
def perform (s : Subject) : Call → Outcome Unit
  | .register p => s.register p
  | .clone => (s.clone.1.map fun _ => (), s.clone.2)
  | .excise => s.excise
  | .redirect => s.redirect
  | .apply p => s.apply p

/-- The subject behind calls, whatever they answer. -/
def after (s : Subject) : List Call → Subject
  | [] => s
  | call :: calls => (s.perform call).2.after calls

/-- The calls that succeed when calls are made in order. -/
def accepted (s : Subject) : List Call → List Call
  | [] => []
  | call :: calls =>
      let rest := (s.perform call).2.accepted calls
      if (s.perform call).1.isOk then call :: rest else rest

/-- The points that calls have registered, in order. -/
def registered (s : Subject) (calls : List Call) : List Point :=
  (s.accepted calls).filterMap Call.registers?

/-- The points that calls have applied, in order. -/
def applied (s : Subject) (calls : List Call) : List Point :=
  (s.accepted calls).filterMap Call.applies?

@[simp] theorem after_nil (s : Subject) : s.after [] = s := rfl

@[simp] theorem after_cons (s : Subject) (call : Call) (calls : List Call) :
    s.after (call :: calls) = (s.perform call).2.after calls := rfl

@[simp] theorem accepted_nil (s : Subject) : s.accepted [] = [] := rfl

theorem accepted_cons (s : Subject) (call : Call) (calls : List Call) :
    s.accepted (call :: calls) =
      if (s.perform call).1.isOk then call :: (s.perform call).2.accepted calls
      else (s.perform call).2.accepted calls := rfl

/-- Calls after calls. -/
theorem after_append (s : Subject) (calls more : List Call) :
    s.after (calls ++ more) = (s.after calls).after more := by
  induction calls generalizing s with
  | nil => rfl
  | cons call calls ih => rw [List.cons_append, after_cons, after_cons, ih]

/-- The points registered by a call and then by others. -/
theorem registered_cons (s : Subject) (call : Call) (calls : List Call) :
    s.registered (call :: calls) =
      (if (s.perform call).1.isOk then call.registers?.toList else []) ++
        (s.perform call).2.registered calls := by
  rw [registered, accepted_cons]
  split
  · rw [List.filterMap_cons]
    cases call.registers? <;> rfl
  · rfl

/-- The points applied by a call and then by others. -/
theorem applied_cons (s : Subject) (call : Call) (calls : List Call) :
    s.applied (call :: calls) =
      (if (s.perform call).1.isOk then call.applies?.toList else []) ++
        (s.perform call).2.applied calls := by
  rw [applied, accepted_cons]
  split
  · rw [List.filterMap_cons]
    cases call.applies? <;> rfl
  · rfl

/-! ## What the success of a step means -/

/-- A refusal is not a success. -/
theorem refuse_ne_ok {s t : Subject} {e : ApplicationError} {x : α} : s.refuse e ≠ (.ok x, t) :=
  nofun

/-- A refusal leaves the subject alone. -/
theorem eq_of_refuse_eq {s t : Subject} {e : ApplicationError} {answer : Except ApplicationError α}
    (h : s.refuse e = (answer, t)) : t = s :=
  (congrArg Prod.snd h).symm

/-- What copying, cutting out and redirecting have in common: without points there is nothing to do,
each of them has one stage where it is in order, and only there it starts to work. -/
theorem staged_cases {s t : Subject} {idle : α} {needed : Stage} {step : String} {work : Outcome α}
    {answer : Except ApplicationError α}
    (h : (if s.pending.isEmpty then (.ok idle, s)
      else if s.stage ≠ needed then s.outOfOrder step else work) = (answer, t)) :
    s.pending = [] ∧ t = s ∨
      s.stage ≠ needed ∧ s.outOfOrder step = (answer, t) ∨
      s.pending ≠ [] ∧ s.stage = needed ∧ work = (answer, t) := by
  split at h
  · rename_i hempty
    exact .inl ⟨List.isEmpty_iff.mp hempty, (congrArg Prod.snd h).symm⟩
  · rename_i hpending
    split at h
    · rename_i hstage
      exact .inr (.inl ⟨hstage, h⟩)
    · rename_i hstage
      exact .inr (.inr ⟨fun hnil => hpending (List.isEmpty_iff.mpr hnil), not_not.mp hstage, h⟩)

/-- A step that succeeds had nothing to do, or its work has succeeded. -/
theorem of_staged_eq_ok {s t : Subject} {idle x : α} {needed : Stage} {step : String}
    {work : Outcome α}
    (h : (if s.pending.isEmpty then (.ok idle, s)
      else if s.stage ≠ needed then s.outOfOrder step else work) = (.ok x, t)) :
    s.pending = [] ∧ t = s ∨ s.pending ≠ [] ∧ s.stage = needed ∧ work = (.ok x, t) := by
  obtain hidle | ⟨-, hrefused⟩ | hwork := staged_cases h
  · exact .inl hidle
  · exact absurd hrefused refuse_ne_ok
  · exact .inr hwork

/-- A step that fails has changed nothing before its work. -/
theorem of_staged_eq_error {s t : Subject} {idle : α} {e : ApplicationError} {needed : Stage}
    {step : String} {work : Outcome α}
    (h : (if s.pending.isEmpty then (.ok idle, s)
      else if s.stage ≠ needed then s.outOfOrder step else work) = (.error e, t)) :
    t = s ∨ s.stage = needed ∧ work = (.error e, t) := by
  obtain ⟨-, hsame⟩ | ⟨-, hrefused⟩ | ⟨-, hwork⟩ := staged_cases h
  · exact .inl hsame
  · exact .inl (eq_of_refuse_eq hrefused)
  · exact .inr hwork

/-- A point is registered only with its own module, and before anything is copied. -/
theorem register_eq_ok {s t : Subject} {p : Point} (h : s.register p = (.ok (), t)) :
    p.module = s.id ∧ s.stage.rank ≤ Stage.registered.rank ∧
      t = { s with pending := Pending.add p s.pending, stage := .registered } := by
  unfold register at h
  split at h
  · exact absurd h refuse_ne_ok
  · rename_i hmodule
    split at h
    · exact absurd h refuse_ne_ok
    · rename_i hrank
      exact ⟨not_not.mp hmodule, Nat.not_lt.mp hrank, (congrArg Prod.snd h).symm⟩

/-- Copying does nothing without points; else it puts all copies behind the functions. -/
theorem clone_eq_ok {s t : Subject} {names : List String} (h : s.clone = (.ok names, t)) :
    s.pending = [] ∧ t = s ∨
      s.pending ≠ [] ∧ s.stage = .registered ∧ ∃ fs, allCopies s.module s.pending = .ok fs ∧
        t = { s with module := s.module.append fs, stage := .cloned } := by
  obtain hidle | ⟨hpending, hstage, hwork⟩ := of_staged_eq_ok h
  · exact .inl hidle
  · split at hwork
    · exact absurd hwork refuse_ne_ok
    · rename_i fs hfs
      exact .inr ⟨hpending, hstage, fs, hfs, (congrArg Prod.snd hwork).symm⟩

/-- A successful call to copy answers with names. -/
theorem of_perform_clone_eq_ok {s t : Subject} (h : s.perform .clone = (.ok (), t)) :
    ∃ names, s.clone = (.ok names, t) := by
  rw [perform, Prod.mk.injEq] at h
  obtain ⟨names, hnames, -⟩ := map_eq_ok_iff.mp h.1
  exact ⟨names, Prod.ext hnames h.2⟩

/-- Cutting out does nothing without points; else it removes the mutated functions by name. -/
theorem excise_eq_ok {s t : Subject} (h : s.excise = (.ok (), t)) :
    s.pending = [] ∧ t = s ∨
      s.pending ≠ [] ∧ s.stage = .cloned ∧ ∃ u, s.removeAll (s.pending.map Prod.fst) = (.ok (), u) ∧
        t = { u with stage := .excised } := by
  obtain hidle | ⟨hpending, hstage, hwork⟩ := of_staged_eq_ok h
  · exact .inl hidle
  · split at hwork
    · rename_i u hu
      exact .inr ⟨hpending, hstage, u, hu, (congrArg Prod.snd hwork).symm⟩
    · rename_i hfailed
      exact absurd hwork (hfailed t)

/-- Redirecting does nothing without points; else it puts all trampolines behind the functions. -/
theorem redirect_eq_ok {s t : Subject} (h : s.redirect = (.ok (), t)) :
    s.pending = [] ∧ t = s ∨
      s.pending ≠ [] ∧ s.stage = .excised ∧ ∃ fs, trampolines s.module s.pending = .ok fs ∧
        t = { s with module := s.module.append fs, stage := .redirected } := by
  obtain hidle | ⟨hpending, hstage, hwork⟩ := of_staged_eq_ok h
  · exact .inl hidle
  · split at hwork
    · exact absurd hwork refuse_ne_ok
    · rename_i fs hfs
      exact .inr ⟨hpending, hstage, fs, hfs, (congrArg Prod.snd hwork).symm⟩

/-- A point is applied only behind the trampolines, and only where its copy has a site. -/
theorem apply_eq_ok {s t : Subject} {p : Point} (h : s.apply p = (.ok (), t)) :
    p.module = s.id ∧ (s.stage = .redirected ∨ s.stage = .applied) ∧
      ∃ copy body, s.module.function? p.cloneName = some copy ∧
        mutateAt p.operator p.instruction copy.body = some body ∧
        t = { s with module := s.module.modify p.cloneName fun f => { f with body }
                     stage := .applied } := by
  unfold apply at h
  split at h
  · exact absurd h refuse_ne_ok
  · rename_i hmodule
    split at h
    · exact absurd h refuse_ne_ok
    · rename_i hstage
      split at h
      · exact absurd h refuse_ne_ok
      · rename_i copy hcopy
        split at h
        · exact absurd h refuse_ne_ok
        · rename_i body hbody
          refine ⟨not_not.mp hmodule, ?_, copy, body, hcopy, hbody, (congrArg Prod.snd h).symm⟩
          by_contra hnone
          exact hstage (not_or.mp hnone)

/-- A refused call changes nothing, unless it is refused in the middle of cutting out. -/
theorem perform_eq_error {s t : Subject} {call : Call} {e : ApplicationError}
    (h : s.perform call = (.error e, t)) :
    t = s ∨ call = .excise ∧ s.stage = .cloned ∧
      s.removeAll (s.pending.map Prod.fst) = (.error e, t) := by
  cases call with
  | register p =>
    rw [perform, register] at h
    split at h
    · exact .inl (eq_of_refuse_eq h)
    · split at h
      · exact .inl (eq_of_refuse_eq h)
      · cases h
  | clone =>
    -- The call drops the names, which an error does not have.
    rw [perform, Prod.mk.injEq, map_eq_error_iff] at h
    obtain hsame | ⟨-, hwork⟩ := of_staged_eq_error (Prod.ext h.1 h.2 : s.clone = (.error e, t))
    · exact .inl hsame
    · split at hwork
      · exact .inl (eq_of_refuse_eq hwork)
      · cases hwork
  | excise =>
    obtain hsame | ⟨hstage, hwork⟩ := of_staged_eq_error h
    · exact .inl hsame
    · split at hwork
      · cases hwork
      · exact .inr ⟨rfl, hstage, hwork⟩
  | redirect =>
    obtain hsame | ⟨-, hwork⟩ := of_staged_eq_error h
    · exact .inl hsame
    · split at hwork
      · exact .inl (eq_of_refuse_eq hwork)
      · cases hwork
  | apply p =>
    rw [perform, apply] at h
    split at h
    · exact .inl (eq_of_refuse_eq h)
    · split at h
      · exact .inl (eq_of_refuse_eq h)
      · split at h
        · exact .inl (eq_of_refuse_eq h)
        · split at h
          · exact .inl (eq_of_refuse_eq h)
          · cases h

end Subject

end MutationLab
