import MutationLab.Code.Module

/-! # Building functions

A builder takes the instructions of a function one by one, and hands out fresh registers
and labels. A jump may name a label that is bound later, so its target is left open at
first: a fix-up notes which field of which instruction waits for which label. When the
function is finished, the fix-ups are gone through in order, and every field gets the
position that its label was bound to. -/

namespace MutationLab

/-- The number of a label of a builder. -/
abbrev Label := Nat

/-- Why a function cannot be built. -/
inductive BuildError where
  /-- A jump names a label that was never bound. -/
  | unboundLabel (function : String) (label : Label)
  /-- A label is bound a second time. -/
  | labelRebound (function : String) (label : Label)
  deriving DecidableEq, Repr

/-- The text of an error. -/
def BuildError.message : BuildError → String
  | unboundLabel function label => s!"function `{function}` references unbound label {label}"
  | labelRebound function label => s!"function `{function}` binds label {label} twice"

/-! ## Open fields -/

/-- A field of an instruction that may be left open. -/
inductive Slot where
  /-- The target of a jump. -/
  | target
  /-- The first target of a branch. -/
  | thenTarget
  /-- The second target of a branch. -/
  | elseTarget
  deriving DecidableEq, Repr

/-- The operation with a position in a field, if it has this field. -/
def Operation.fill? (slot : Slot) (position : UInt64) (operation : Operation) : Option Operation :=
  match operation, slot with
  | .jump _, .target => some (.jump position)
  | .branch cond _ elseTarget, .thenTarget => some (.branch cond position elseTarget)
  | .branch cond thenTarget _, .elseTarget => some (.branch cond thenTarget position)
  | _, _ => none

/-- Filling in a field leaves the same fields behind. -/
theorem Operation.isSome_fill?_of_fill? {operation filled : Operation} {slot other : Slot}
    {position : UInt64} (h : operation.fill? slot position = some filled) (next : UInt64) :
    (filled.fill? other next).isSome = (operation.fill? other next).isSome := by
  unfold fill? at h
  split at h
  · obtain rfl := Option.some.inj h
    cases other <;> rfl
  · obtain rfl := Option.some.inj h
    cases other <;> rfl
  · obtain rfl := Option.some.inj h
    cases other <;> rfl
  · exact nomatch h

/-- Whether there is a field does not depend on what is filled in. -/
theorem Operation.isSome_fill? (operation : Operation) (slot : Slot) (position next : UInt64) :
    (operation.fill? slot position).isSome = (operation.fill? slot next).isSome := by
  cases operation <;> cases slot <;> rfl

/-- A field of a body that waits for the position of a label. -/
structure Fixup where
  /-- The position of the instruction. -/
  index : Nat
  label : Label
  slot : Slot
  deriving DecidableEq, Repr

namespace Fixup

/-- The body with a position in the field, if the field is there. -/
def fill? (fixup : Fixup) (position : UInt64) (body : List Instruction) :
    Option (List Instruction) := do
  let i ← body[fixup.index]?
  let operation ← i.operation.fill? fixup.slot position
  return body.set fixup.index { i with operation }

/-- The field is there. -/
def Fits (fixup : Fixup) (body : List Instruction) : Prop :=
  ∃ i, body[fixup.index]? = some i ∧ (i.operation.fill? fixup.slot 0).isSome = true

/-- What follows the field does not matter. -/
theorem Fits.append {fixup : Fixup} {body : List Instruction} (h : fixup.Fits body)
    (more : List Instruction) : fixup.Fits (body ++ more) := by
  obtain ⟨i, hi, hslot⟩ := h
  obtain ⟨hlt, -⟩ := List.getElem?_eq_some_iff.mp hi
  exact ⟨i, by rw [List.getElem?_append_left hlt, hi], hslot⟩

/-- A field that is there can be filled in, and all others stay where they are. -/
theorem Fits.exists_fill? {fixup : Fixup} {body : List Instruction} (h : fixup.Fits body)
    (position : UInt64) :
    ∃ filled, fixup.fill? position body = some filled ∧
      ∀ other : Fixup, other.Fits body → other.Fits filled := by
  obtain ⟨i, hi, hslot⟩ := h
  rw [i.operation.isSome_fill? _ 0 position] at hslot
  obtain ⟨operation, hoperation⟩ := Option.isSome_iff_exists.mp hslot
  refine ⟨body.set fixup.index { i with operation }, by simp [fill?, hi, hoperation], ?_⟩
  rintro other ⟨j, hj, hother⟩
  by_cases heq : fixup.index = other.index
  · rw [← heq, hi, Option.some.injEq] at hj
    subst hj
    obtain ⟨hlt, -⟩ := List.getElem?_eq_some_iff.mp hi
    refine ⟨{ i with operation }, by rw [← heq, List.getElem?_set_self hlt], ?_⟩
    exact (Operation.isSome_fill?_of_fill? hoperation 0).trans hother
  · exact ⟨j, by rw [List.getElem?_set_ne heq, hj], hother⟩

end Fixup

/-! ## Builders -/

/-- A function that is being built. -/
structure Builder where
  name : String
  params : UInt32
  /-- The next fresh register. -/
  nextRegister : Register
  /-- The instructions so far, with zero in the fields that are open. -/
  body : List Instruction := []
  /-- The position of every label, if bound. -/
  labels : List (Option Nat) := []
  /-- The fields that are open, in order. -/
  fixups : List Fixup := []
  /-- The location of the next instructions. -/
  location : Option Location := none
  /-- The first location ever set. -/
  declaredAt : Option Location := none
  /-- All open fields are there. -/
  fits : ∀ fixup ∈ fixups, fixup.Fits body := by simp
  deriving DecidableEq

namespace Builder

/-- A function without instructions yet. -/
def new (name : String) (params : UInt32) : Builder := { name, params, nextRegister := params }

/-- Set the location of the instructions to come. -/
def setLocation (b : Builder) (l : Location) : Builder :=
  { b with location := some l, declaredAt := b.declaredAt.or (some l) }

/-- Give no location to the instructions to come. -/
def clearLocation (b : Builder) : Builder := { b with location := none }

/-- The register of a parameter, if there is one of that number. -/
def param? (b : Builder) (index : UInt32) : Option Register :=
  if index < b.params then some index else none

/-- Add an instruction at the location in force. -/
def emit (b : Builder) (operation : Operation) : Builder :=
  { b with
    body := b.body ++ [{ operation, location := b.location }]
    fits := fun fixup h => (b.fits fixup h).append _ }

/-- Add an instruction that writes a fresh register. -/
def emitFresh (b : Builder) (operation : Register → Operation) : Register × Builder :=
  let dst := b.nextRegister
  (dst, { b with nextRegister := dst + 1 }.emit (operation dst))

/-- Add an instruction whose fields wait for labels. -/
def emitOpen (b : Builder) (operation : Operation) (fields : List (Slot × Label))
    (h : ∀ field ∈ fields, (operation.fill? field.1 0).isSome = true) : Builder :=
  { b.emit operation with
    fixups := b.fixups ++ fields.map fun field => ⟨b.body.length, field.2, field.1⟩
    fits := by
      rw [List.forall_mem_append, List.forall_mem_map]
      refine ⟨(b.emit operation).fits, fun field hfield => ?_⟩
      exact ⟨_, List.getElem?_concat_length, h field hfield⟩ }

/-! The instructions of a function. -/

/-- Put a number into a fresh register. -/
def constant (b : Builder) (value : Int64) : Register × Builder := b.emitFresh (.const · value)

/-- Combine two registers into a fresh one. -/
def binary (b : Builder) (kind : BinaryKind) (lhs rhs : Register) : Register × Builder :=
  b.emitFresh (.binary · kind lhs rhs)

/-- Combine two registers into a given one. -/
def binaryInto (b : Builder) (dst : Register) (kind : BinaryKind) (lhs rhs : Register) : Builder :=
  b.emit (.binary dst kind lhs rhs)

/-- Compare two registers into a fresh one. -/
def compare (b : Builder) (predicate : Predicate) (lhs rhs : Register) : Register × Builder :=
  b.emitFresh (.compare · predicate lhs rhs)

/-- Call a function and keep its value in a fresh register. -/
def call (b : Builder) (callee : String) (args : List Register) : Register × Builder :=
  b.emitFresh fun dst => .call (some dst) callee args

/-- Call a function without keeping its value. -/
def callVoid (b : Builder) (callee : String) (args : List Register) : Builder :=
  b.emit (.call none callee args)

/-- Print a register. -/
def print (b : Builder) (value : Register) : Builder := b.emit (.print value)

/-- Leave the function with the value of a register, or zero. -/
def ret (b : Builder) (value : Option Register) : Builder := b.emit (.return value)

/-- Stop the run with a fault. -/
def trap (b : Builder) (message : String) : Builder := b.emit (.trap message)

/-- Jump to a label. -/
def jump (b : Builder) (target : Label) : Builder :=
  b.emitOpen (.jump 0) [(.target, target)] (by simp [Operation.fill?])

/-- Branch to one of two labels. -/
def branch (b : Builder) (cond : Register) (thenTarget elseTarget : Label) : Builder :=
  b.emitOpen (.branch cond 0 0) [(.thenTarget, thenTarget), (.elseTarget, elseTarget)]
    (by simp [Operation.fill?])

/-! Labels. -/

/-- A new label, not bound yet. -/
def label (b : Builder) : Label × Builder :=
  (b.labels.length, { b with labels := b.labels ++ [none] })

/-- Bind a label to the next instruction. -/
def bind (b : Builder) (l : Label) : Except BuildError Builder :=
  match b.labels[l]? with
  | some (some _) => .error (.labelRebound b.name l)
  | _ => .ok { b with labels := b.labels.set l (some b.body.length) }

/-- Fill in fields in their order. Nothing comes of it if one of them is not there. -/
def settle? (b : Builder) :
    List Fixup → List Instruction → Option (Except BuildError (List Instruction))
  | [], body => some (.ok body)
  | fixup :: fixups, body =>
      match b.labels[fixup.label]? with
      | some (some position) => do
          let filled ← fixup.fill? (UInt64.ofNat position) body
          b.settle? fixups filled
      | _ => some (.error (.unboundLabel b.name fixup.label))

/-- Fields that are there can all be filled in. -/
theorem isSome_settle? (b : Builder) {fixups : List Fixup} {body : List Instruction}
    (h : ∀ fixup ∈ fixups, fixup.Fits body) : (b.settle? fixups body).isSome = true := by
  induction fixups generalizing body with
  | nil => rfl
  | cons fixup fixups ih =>
    rw [List.forall_mem_cons] at h
    rw [settle?]
    split
    · rename_i position hposition
      obtain ⟨filled, hfilled, hkeeps⟩ := h.1.exists_fill? (UInt64.ofNat position)
      rw [hfilled]
      exact ih fun other hother => hkeeps other (h.2 other hother)
    · rfl

/-- The function, declared at the first location that was set. -/
def finish (b : Builder) : Except BuildError Function := do
  let body ← (b.settle? b.fixups b.body).get (b.isSome_settle? b.fits)
  return { name := b.name, params := b.params, body, location := b.declaredAt }

end Builder

end MutationLab
