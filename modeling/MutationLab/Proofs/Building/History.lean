import Mathlib.Data.List.Induction
import MutationLab.Code.Builder

/-! # Calls of a builder

A function is built by calls in any order. This file gives calls a type of their own and says what
a sequence of calls amounts to, with no builder in sight: which registers and labels it has taken,
which location is in force behind it, where a label was bound and which instructions it has emitted
(namespace `Building`). A builder that calls are made on keeps account of exactly that
(`Builder.Follows`, `Builder.follows_after`). -/

namespace MutationLab

/-- A call of a builder. -/
inductive BuilderCall where
  /-- Set the location of the instructions to come. -/
  | setLocation (location : Location)
  /-- Give no location to the instructions to come. -/
  | clearLocation
  /-- Ask for the register of a parameter. -/
  | param (index : UInt32)
  /-- Put a number into a fresh register. -/
  | constant (value : Int64)
  /-- Combine two registers into a fresh one. -/
  | binary (kind : BinaryKind) (lhs rhs : Register)
  /-- Combine two registers into a given one. -/
  | binaryInto (dst : Register) (kind : BinaryKind) (lhs rhs : Register)
  /-- Compare two registers into a fresh one. -/
  | compare (predicate : Predicate) (lhs rhs : Register)
  /-- Call a function and keep its value in a fresh register. -/
  | call (callee : String) (args : List Register)
  /-- Call a function without keeping its value. -/
  | callVoid (callee : String) (args : List Register)
  /-- Print a register. -/
  | print (value : Register)
  /-- Ask for a new label. -/
  | label
  /-- Bind a label to the next instruction. -/
  | bind (label : Label)
  /-- Jump to a label. -/
  | jump (target : Label)
  /-- Branch to one of two labels. -/
  | branch (cond : Register) (thenTarget elseTarget : Label)
  /-- Leave the function with the value of a register, or zero. -/
  | ret (value : Option Register)
  /-- Stop the run with a fault. -/
  | trap (message : String)
  deriving DecidableEq, Repr

namespace BuilderCall

/-- Whether the call takes a fresh register. -/
def takesRegister : BuilderCall → Bool
  | constant _ | binary .. | compare .. | call .. => true
  | _ => false

/-- The fields of the emitted instruction that wait for labels, in order. -/
def fields : BuilderCall → List (Slot × Label)
  | jump target => [(.target, target)]
  | branch _ thenTarget elseTarget => [(.thenTarget, thenTarget), (.elseTarget, elseTarget)]
  | _ => []

/-- The labels that the emitted instruction jumps to, in order. -/
def references (c : BuilderCall) : List Label := c.fields.map Prod.snd

/-- The labels that the call is handed. -/
def labels : BuilderCall → List Label
  | bind l => [l]
  | c => c.references

theorem references_subset_labels (c : BuilderCall) : c.references ⊆ c.labels := by
  cases c with
  | bind l => exact List.nil_subset _
  | _ => exact List.Subset.refl _

/-- The location that the call puts in force, if it changes the location. -/
def location? : BuilderCall → Option (Option Location)
  | setLocation l => some (some l)
  | clearLocation => some none
  | _ => none

/-- The location that the call sets. -/
def declares? : BuilderCall → Option Location
  | setLocation l => some l
  | _ => none

/-- The operation that is emitted, when the next register is `fresh` and labels stand for
positions. -/
def operation? (fresh : Register) (position : Label → UInt64) : BuilderCall → Option Operation
  | setLocation _ | clearLocation | param _ | label | bind _ => none
  | constant value => some (.const fresh value)
  | binary kind lhs rhs => some (.binary fresh kind lhs rhs)
  | binaryInto dst kind lhs rhs => some (.binary dst kind lhs rhs)
  | compare predicate lhs rhs => some (.compare fresh predicate lhs rhs)
  | call callee args => some (.call (some fresh) callee args)
  | callVoid callee args => some (.call none callee args)
  | print value => some (.print value)
  | jump target => some (.jump (position target))
  | branch cond thenTarget elseTarget =>
      some (.branch cond (position thenTarget) (position elseTarget))
  | ret value => some (.return value)
  | trap message => some (.trap message)

/-- The instruction that is emitted, if any, at a location. -/
def instructions (c : BuilderCall) (fresh : Register) (position : Label → UInt64)
    (location : Option Location) : List Instruction :=
  (c.operation? fresh position).toList.map fun operation => { operation, location }

/-- Whether the call emits an instruction. -/
def emits (c : BuilderCall) : Bool := (c.operation? 0 fun _ => 0).isSome

/-- How many instructions are emitted does not depend on registers, positions and locations. -/
theorem length_instructions (c : BuilderCall) (fresh : Register) (position : Label → UInt64)
    (location : Option Location) :
    (c.instructions fresh position location).length = if c.emits then 1 else 0 := by
  cases c <;> rfl

end BuilderCall

/-! ## What calls amount to -/

namespace Building

/-- How many registers calls take. -/
def registerCount (calls : List BuilderCall) : Nat := calls.countP (·.takesRegister)

/-- How many labels calls ask for. -/
def labelCount (calls : List BuilderCall) : Nat := calls.countP (· = .label)

/-- How many instructions calls emit. -/
def instructionCount (calls : List BuilderCall) : Nat := calls.countP (·.emits)

/-- The next register behind calls. -/
def nextRegister (params : UInt32) (calls : List BuilderCall) : Register :=
  params + UInt32.ofNat (registerCount calls)

/-- The location in force behind calls. -/
def inForce (calls : List BuilderCall) : Option Location :=
  calls.foldl (fun location c => c.location?.getD location) none

/-- The first location that calls set. -/
def declaredAt (calls : List BuilderCall) : Option Location := calls.findSome? (·.declares?)

/-- The number of instructions emitted before a label is first bound. -/
def boundAt (calls : List BuilderCall) (l : Label) : Option Nat :=
  if .bind l ∈ calls then some (instructionCount (calls.takeWhile (· ≠ .bind l))) else none

/-- The position that a label stands for behind calls. -/
def position (calls : List BuilderCall) (l : Label) : UInt64 :=
  UInt64.ofNat ((boundAt calls l).getD 0)

/-- The labels that calls jump to, in the order of the instructions. -/
def references (calls : List BuilderCall) : List Label := calls.flatMap (·.references)

/-- The first label that is jumped to and never bound. -/
def firstUnbound? (calls : List BuilderCall) : Option Label :=
  (references calls).find? fun l => .bind l ∉ calls

/-- The instructions that `calls` emit behind the calls `before`, each at the location in force. -/
def emittedFrom (params : UInt32) (position : Label → UInt64) :
    (before calls : List BuilderCall) → List Instruction
  | _, [] => []
  | before, c :: cs =>
      c.instructions (nextRegister params before) position (inForce before) ++
        emittedFrom params position (before ++ [c]) cs

/-- The instructions that calls emit, when labels stand for positions. -/
def emitted (params : UInt32) (position : Label → UInt64) (calls : List BuilderCall) :
    List Instruction :=
  emittedFrom params position [] calls

/-- The fields that `calls` leave open behind the calls `before`. -/
def awaitedFrom : (before calls : List BuilderCall) → List Fixup
  | _, [] => []
  | before, c :: cs =>
      c.fields.map (fun field => ⟨instructionCount before, field.2, field.1⟩) ++
        awaitedFrom (before ++ [c]) cs

/-- Calls are handed only labels that the builder has given out before. -/
def OwnLabels (calls : List BuilderCall) : Prop :=
  ∀ k : Fin calls.length, ∀ l ∈ calls[k].labels, l < labelCount (calls.take k)

instance (calls : List BuilderCall) : Decidable (OwnLabels calls) :=
  inferInstanceAs (Decidable (∀ k : Fin calls.length, ∀ l ∈ calls[k].labels,
    l < labelCount (calls.take k)))

variable (params : UInt32) (calls : List BuilderCall) (c : BuilderCall)

/-! One more call. -/

@[simp] theorem instructionCount_append_singleton :
    instructionCount (calls ++ [c]) = instructionCount calls + if c.emits then 1 else 0 := by
  simp [instructionCount, List.countP_cons]

@[simp] theorem labelCount_append_singleton :
    labelCount (calls ++ [c]) = labelCount calls + if c = .label then 1 else 0 := by
  simp [labelCount, List.countP_cons]

@[simp] theorem nextRegister_append_singleton :
    nextRegister params (calls ++ [c]) =
      if c.takesRegister then nextRegister params calls + 1 else nextRegister params calls := by
  cases h : c.takesRegister <;>
    simp [nextRegister, registerCount, h, UInt32.ofNat_add, UInt32.add_assoc]

@[simp] theorem inForce_append_singleton :
    inForce (calls ++ [c]) = c.location?.getD (inForce calls) := by
  simp [inForce]

@[simp] theorem declaredAt_append_singleton :
    declaredAt (calls ++ [c]) = (declaredAt calls).or c.declares? := by
  simp [declaredAt, List.findSome?_append]

/-- A label that is not bound has no position. -/
theorem boundAt_of_notMem {l : Label} (h : .bind l ∉ calls) : boundAt calls l = none := if_neg h

variable {calls} in
/-- A label that is bound has one. -/
theorem exists_boundAt {l : Label} (h : .bind l ∈ calls) : ∃ count, boundAt calls l = some count :=
  ⟨_, if_pos h⟩

variable {calls} in
/-- **A label is bound where it is first bound.** -/
theorem boundAt_append_cons {l : Label} (h : .bind l ∉ calls) (later : List BuilderCall) :
    boundAt (calls ++ .bind l :: later) l = some (instructionCount calls) := by
  have hbefore : ∀ c ∈ calls, decide (c ≠ .bind l) = true := by
    intro c hc
    exact decide_eq_true (ne_of_mem_of_not_mem hc h)
  have hfirst : (calls ++ .bind l :: later).takeWhile (· ≠ .bind l) = calls := by
    rw [List.takeWhile_append_of_pos hbefore, List.takeWhile_cons_of_neg (by simp), List.append_nil]
  rw [boundAt, if_pos (by simp), hfirst]

/-- Later calls do not move a label, and bind it if it is not bound yet. -/
theorem boundAt_append_singleton (l : Label) :
    boundAt (calls ++ [c]) l =
      (boundAt calls l).or (if c = .bind l then some (instructionCount calls) else none) := by
  by_cases hmem : .bind l ∈ calls
  · obtain ⟨first, later, rfl, hfirst⟩ := List.eq_append_cons_of_mem hmem
    rw [List.append_assoc, List.cons_append, boundAt_append_cons hfirst, boundAt_append_cons hfirst,
      Option.some_or]
  · rw [boundAt_of_notMem calls hmem, Option.none_or]
    by_cases hc : c = .bind l
    · rw [if_pos hc, hc, boundAt_append_cons hmem]
    · rw [if_neg hc, boundAt_of_notMem]
      simp [hmem, Ne.symm hc]

/-- Calls after calls. -/
theorem emittedFrom_append (position : Label → UInt64) (before more : List BuilderCall) :
    emittedFrom params position before (calls ++ more) =
      emittedFrom params position before calls ++
        emittedFrom params position (before ++ calls) more := by
  induction calls generalizing before with
  | nil => simp [emittedFrom]
  | cons c cs ih =>
    rw [List.cons_append, emittedFrom, emittedFrom, ih, List.append_assoc, List.append_assoc,
      List.singleton_append]

theorem awaitedFrom_append (before more : List BuilderCall) :
    awaitedFrom before (calls ++ more) =
      awaitedFrom before calls ++ awaitedFrom (before ++ calls) more := by
  induction calls generalizing before with
  | nil => simp [awaitedFrom]
  | cons c cs ih =>
    rw [List.cons_append, awaitedFrom, awaitedFrom, ih, List.append_assoc, List.append_assoc,
      List.singleton_append]

/-- As many instructions are emitted as are counted. -/
theorem length_emittedFrom (position : Label → UInt64) (before : List BuilderCall) :
    (emittedFrom params position before calls).length = instructionCount calls := by
  induction calls generalizing before with
  | nil => rfl
  | cons c cs ih =>
    rw [emittedFrom, List.length_append, ih, c.length_instructions, instructionCount,
      instructionCount, List.countP_cons, Nat.add_comm]

section Own

variable {calls more : List BuilderCall} {c : BuilderCall}

/-- Calls with own labels have own labels as far as they go. -/
theorem OwnLabels.of_append (h : OwnLabels (calls ++ more)) : OwnLabels calls := by
  intro k l hl
  have hlt : k.1 < (calls ++ more).length := by
    rw [List.length_append]
    exact Nat.lt_add_right _ k.2
  have hk := h ⟨k, hlt⟩ l
  rw [List.take_append_of_le_length (Nat.le_of_lt k.2)] at hk
  refine hk ?_
  rwa [Fin.getElem_fin, List.getElem_append_left k.2]

/-- The labels that a call is handed were given out by the calls before it. -/
theorem OwnLabels.lt_of_append_cons (h : OwnLabels (calls ++ c :: more)) {l : Label}
    (hl : l ∈ c.labels) : l < labelCount calls := by
  have hlt : calls.length < (calls ++ c :: more).length := by simp
  have hk := h ⟨calls.length, hlt⟩ l
  rw [List.take_left] at hk
  refine hk ?_
  rw [Fin.getElem_fin, List.getElem_append_right (Nat.le_refl _)]
  simpa using hl

/-- A label that is handed to a call has been given out. -/
theorem OwnLabels.lt_of_mem (h : OwnLabels calls) (hc : c ∈ calls) {l : Label}
    (hl : l ∈ c.labels) : l < labelCount calls := by
  obtain ⟨before, later, rfl⟩ := List.append_of_mem hc
  refine Nat.lt_of_lt_of_le (h.lt_of_append_cons hl) ?_
  rw [labelCount, labelCount, List.countP_append]
  exact Nat.le_add_right _ _

end Own

end Building

/-! ## Calls on a builder -/

/-- What a call of a builder answers. -/
inductive BuilderAnswer where
  /-- Nothing. -/
  | done
  /-- The register of a parameter, if there is one of that number. -/
  | parameter (register : Option Register)
  /-- A fresh register. -/
  | fresh (register : Register)
  /-- A new label. -/
  | label (label : Label)
  /-- The call is refused. -/
  | refused (e : BuildError)
  deriving DecidableEq, Repr

/-- The fresh register that is handed out. -/
def BuilderAnswer.register? : BuilderAnswer → Option Register
  | fresh register => some register
  | _ => none

namespace Builder

open Building

/-- Make a call. -/
def perform (b : Builder) : BuilderCall → BuilderAnswer × Builder
  | .setLocation location => (.done, b.setLocation location)
  | .clearLocation => (.done, b.clearLocation)
  | .param index => (.parameter (b.param? index), b)
  | .constant value => (b.constant value).map .fresh id
  | .binary kind lhs rhs => (b.binary kind lhs rhs).map .fresh id
  | .binaryInto dst kind lhs rhs => (.done, b.binaryInto dst kind lhs rhs)
  | .compare predicate lhs rhs => (b.compare predicate lhs rhs).map .fresh id
  | .call callee args => (b.call callee args).map .fresh id
  | .callVoid callee args => (.done, b.callVoid callee args)
  | .print value => (.done, b.print value)
  | .label => b.label.map .label id
  | .bind l =>
      match b.bind l with
      | .ok b => (.done, b)
      | .error e => (.refused e, b)
  | .jump target => (.done, b.jump target)
  | .branch cond thenTarget elseTarget => (.done, b.branch cond thenTarget elseTarget)
  | .ret value => (.done, b.ret value)
  | .trap message => (.done, b.trap message)

/-- The builder behind calls, whatever they answer. -/
def after (b : Builder) : List BuilderCall → Builder
  | [] => b
  | call :: calls => (b.perform call).2.after calls

/-- What calls answer, in order. -/
def answers (b : Builder) : List BuilderCall → List BuilderAnswer
  | [] => []
  | call :: calls => (b.perform call).1 :: (b.perform call).2.answers calls

/-- The fresh registers that calls hand out, in order. -/
def handedOut (b : Builder) (calls : List BuilderCall) : List Register :=
  (b.answers calls).filterMap (·.register?)

variable (b : Builder) (calls more : List BuilderCall) (call : BuilderCall)

/-- Calls after calls. -/
theorem after_append : b.after (calls ++ more) = (b.after calls).after more := by
  induction calls generalizing b with
  | nil => rfl
  | cons call calls ih => exact ih (b.perform call).2

/-! What a call changes, field by field. -/

variable {b} in
/-- A label that is bound is not bound again. -/
theorem perform_bind_of_bound {l : Label} {position : Nat}
    (h : b.labels[l]? = some (some position)) :
    b.perform (.bind l) = (.refused (.labelRebound b.name l), b) := by
  rw [perform, bind, h]

variable {b} in
/-- A label that is not bound is bound to the next instruction. -/
theorem perform_bind_of_unbound {l : Label} (h : b.labels[l]? = some none) :
    b.perform (.bind l) = (.done, { b with labels := b.labels.set l (some b.body.length) }) := by
  rw [perform, bind, h]

/-- Binding a label changes nothing but the labels. -/
theorem exists_perform_bind (l : Label) :
    ∃ labels, (b.perform (.bind l)).2 = { b with labels } := by
  rw [perform, bind]
  cases b.labels[l]? with
  | none => exact ⟨_, rfl⟩
  | some position =>
    cases position with
    | none => exact ⟨_, rfl⟩
    | some position => exact ⟨b.labels, rfl⟩

theorem name_perform : (b.perform call).2.name = b.name := by
  cases call with
  | bind l =>
    obtain ⟨labels, h⟩ := b.exists_perform_bind l
    rw [h]
  | _ => rfl

theorem params_perform : (b.perform call).2.params = b.params := by
  cases call with
  | bind l =>
    obtain ⟨labels, h⟩ := b.exists_perform_bind l
    rw [h]
  | _ => rfl

theorem nextRegister_perform :
    (b.perform call).2.nextRegister =
      if call.takesRegister then b.nextRegister + 1 else b.nextRegister := by
  cases call with
  | bind l =>
    obtain ⟨labels, h⟩ := b.exists_perform_bind l
    rw [h]
    rfl
  | _ => rfl

theorem location_perform :
    (b.perform call).2.location = call.location?.getD b.location := by
  cases call with
  | bind l =>
    obtain ⟨labels, h⟩ := b.exists_perform_bind l
    rw [h]
    rfl
  | _ => rfl

theorem declaredAt_perform :
    (b.perform call).2.declaredAt = b.declaredAt.or call.declares? := by
  cases call with
  | bind l =>
    obtain ⟨labels, h⟩ := b.exists_perform_bind l
    rw [h]
    exact (Option.or_none ..).symm
  | setLocation location => rfl
  | _ => exact (Option.or_none ..).symm

/-- An instruction is put behind the others, with its fields open. -/
theorem body_perform :
    (b.perform call).2.body =
      b.body ++ call.instructions b.nextRegister (fun _ => 0) b.location := by
  cases call with
  | bind l =>
    obtain ⟨labels, h⟩ := b.exists_perform_bind l
    rw [h]
    exact (List.append_nil _).symm
  | setLocation | clearLocation | param | label => exact (List.append_nil _).symm
  | _ => rfl

/-- The open fields are noted. -/
theorem fixups_perform :
    (b.perform call).2.fixups =
      b.fixups ++ call.fields.map fun field => ⟨b.body.length, field.2, field.1⟩ := by
  cases call with
  | bind l =>
    obtain ⟨labels, h⟩ := b.exists_perform_bind l
    rw [h]
    exact (List.append_nil _).symm
  | jump | branch => rfl
  | _ => exact (List.append_nil _).symm

/-- Only a call for a label or one that binds a label changes the labels. -/
theorem labels_perform (hlabel : call ≠ .label) (hbind : ∀ l, call ≠ .bind l) :
    (b.perform call).2.labels = b.labels := by
  cases call with
  | label => exact absurd rfl hlabel
  | bind l => exact absurd rfl (hbind l)
  | _ => rfl

/-- A builder keeps account of the calls that have been made on it. -/
structure Follows (name : String) (params : UInt32) (calls : List BuilderCall) (b : Builder) :
    Prop where
  name_eq : b.name = name
  params_eq : b.params = params
  nextRegister_eq : b.nextRegister = Building.nextRegister params calls
  location_eq : b.location = inForce calls
  declaredAt_eq : b.declaredAt = Building.declaredAt calls
  body_eq : b.body = emitted params (fun _ => 0) calls
  fixups_eq : b.fixups = awaitedFrom [] calls
  labels_eq : b.labels = (List.range (labelCount calls)).map (boundAt calls)

namespace Follows

variable {name : String} {params : UInt32} {calls : List BuilderCall} {b : Builder}

/-- Nothing has been called on a new builder. -/
theorem new (name : String) (params : UInt32) : Follows name params [] (.new name params) where
  name_eq := rfl
  params_eq := rfl
  nextRegister_eq := (UInt32.add_zero params).symm
  location_eq := rfl
  declaredAt_eq := rfl
  body_eq := rfl
  fixups_eq := rfl
  labels_eq := rfl

/-- The account of a label that has been given out. -/
theorem getElem?_labels (h : Follows name params calls b) {l : Label}
    (hl : l < labelCount calls) : b.labels[l]? = some (boundAt calls l) := by
  rw [h.labels_eq, List.getElem?_map, List.getElem?_range hl, Option.map_some]

/-- As many instructions are there as the calls emitted. -/
theorem length_body (h : Follows name params calls b) :
    b.body.length = instructionCount calls := by
  rw [h.body_eq, emitted, length_emittedFrom]

/-- What a call does not bind stays as it is. -/
theorem map_boundAt_append_singleton (h : Follows name params calls b) {call : BuilderCall}
    (hne : ∀ l < labelCount calls, call ≠ .bind l) :
    (List.range (labelCount calls)).map (boundAt (calls ++ [call])) = b.labels := by
  rw [h.labels_eq]
  refine List.map_congr_left fun l hl => ?_
  rw [boundAt_append_singleton, if_neg (hne l (List.mem_range.mp hl)), Option.or_none]

/-- The labels behind a call that binds one of them: it changes the account of this one, if it is
the first to bind it. -/
theorem labels_perform_bind (h : Follows name params calls b) {l : Label}
    (hl : l < labelCount calls) :
    (b.perform (.bind l)).2.labels =
      (List.range (labelCount calls)).map (boundAt (calls ++ [.bind l])) := by
  have haccount := h.getElem?_labels hl
  cases hbound : boundAt calls l with
  | some position =>
    rw [hbound] at haccount
    rw [perform_bind_of_bound haccount, h.labels_eq]
    refine List.map_congr_left fun other _ => ?_
    rw [boundAt_append_singleton]
    by_cases heq : l = other
    · rw [← heq, hbound, Option.some_or]
    · rw [if_neg fun hcall => heq (BuilderCall.bind.inj hcall), Option.or_none]
  | none =>
    rw [hbound] at haccount
    rw [perform_bind_of_unbound haccount]
    show b.labels.set l (some b.body.length) = _
    rw [h.length_body, h.labels_eq]
    refine List.ext_getElem (by simp) fun other _ _ => ?_
    rw [List.getElem_set, List.getElem_map, List.getElem_map, List.getElem_range,
      boundAt_append_singleton]
    by_cases heq : l = other
    · rw [if_pos heq, ← heq, hbound, if_pos rfl, Option.none_or]
    · rw [if_neg heq, if_neg fun hcall => heq (BuilderCall.bind.inj hcall), Option.or_none]

/-- The labels behind one more call. -/
theorem labels_perform (h : Follows name params calls b) {call : BuilderCall}
    (hown : OwnLabels (calls ++ [call])) :
    (b.perform call).2.labels =
      (List.range (labelCount (calls ++ [call]))).map (boundAt (calls ++ [call])) := by
  by_cases hlabel : call = .label
  · subst hlabel
    -- A label that is given out only now has not been bound before.
    have hfresh : boundAt (calls ++ [.label]) (labelCount calls) = none := by
      refine boundAt_of_notMem _ fun hmem => ?_
      have hmem' : .bind (labelCount calls) ∈ calls := by simpa using hmem
      exact Nat.lt_irrefl _ (hown.of_append.lt_of_mem hmem' (List.mem_singleton_self _))
    have hother : ∀ l < labelCount calls, BuilderCall.label ≠ .bind l := fun _ _ => nofun
    rw [labelCount_append_singleton, if_pos rfl, List.range_succ, List.map_append,
      h.map_boundAt_append_singleton hother, List.map_singleton, hfresh]
    rfl
  · rw [labelCount_append_singleton, if_neg hlabel, Nat.add_zero]
    by_cases hbind : ∃ l, call = .bind l
    · obtain ⟨l, rfl⟩ := hbind
      exact h.labels_perform_bind (hown.lt_of_append_cons (List.mem_singleton_self l))
    · rw [h.map_boundAt_append_singleton fun l _ hcall => hbind ⟨l, hcall⟩]
      exact b.labels_perform call hlabel fun l hcall => hbind ⟨l, hcall⟩

/-- One more call. -/
theorem perform (h : Follows name params calls b) {call : BuilderCall}
    (hown : OwnLabels (calls ++ [call])) :
    Follows name params (calls ++ [call]) (b.perform call).2 where
  name_eq := (b.name_perform call).trans h.name_eq
  params_eq := (b.params_perform call).trans h.params_eq
  nextRegister_eq := by
    rw [nextRegister_perform, nextRegister_append_singleton, h.nextRegister_eq]
  location_eq := by
    rw [location_perform, inForce_append_singleton, h.location_eq]
  declaredAt_eq := by
    rw [declaredAt_perform, declaredAt_append_singleton, h.declaredAt_eq]
  body_eq := by
    rw [body_perform, h.body_eq, h.nextRegister_eq, h.location_eq, emitted, emitted,
      emittedFrom_append, emittedFrom, emittedFrom, List.append_nil, List.nil_append]
  fixups_eq := by
    rw [fixups_perform, h.fixups_eq, h.length_body, awaitedFrom_append,
      awaitedFrom, awaitedFrom, List.append_nil, List.nil_append]
  labels_eq := h.labels_perform hown

end Follows

/-- **A builder keeps account of its calls**, whatever calls are made. -/
theorem follows_after (name : String) (params : UInt32) {calls : List BuilderCall}
    (hown : OwnLabels calls) : Follows name params calls ((new name params).after calls) := by
  induction calls using List.reverseRecOn with
  | nil => exact .new name params
  | append_singleton calls call ih =>
    rw [after_append]
    exact (ih hown.of_append).perform hown

end Builder

end MutationLab
