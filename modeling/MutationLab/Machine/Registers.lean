/-! # Register files

A fixed number of registers, zero at first. Only the registers up to the last one ever
written take up room, so a file may be large. -/

namespace MutationLab

/-- The registers of one call. -/
structure Registers where
  size : Nat
  /-- The contents of the first registers; all others hold zero. -/
  cells : Array Int64
  deriving DecidableEq, Repr

namespace Registers

/-- At least `size` registers, the first of which hold the arguments. -/
def ofArguments (size : Nat) (arguments : List Int64) : Registers :=
  { size := max size arguments.length, cells := arguments.toArray }

/-- The content of a register. -/
def get? (r : Registers) (index : Nat) : Option Int64 :=
  if index < r.size then some (r.cells.getD index 0) else none

/-- The registers with one of them changed. -/
def set? (r : Registers) (index : Nat) (value : Int64) : Option Registers :=
  if index < r.size then
    some <|
      if index < r.cells.size then { r with cells := r.cells.setIfInBounds index value }
      else { r with cells := (r.cells ++ Array.replicate (index - r.cells.size) 0).push value }
  else none

/-- The contents of the first `count` registers. -/
def take (r : Registers) (count : Nat) : List Int64 :=
  (List.range count).map fun index => r.cells.getD index 0

theorem isSome_get? (r : Registers) (index : Nat) :
    (r.get? index).isSome ↔ index < r.size := by
  simp [get?]

theorem isSome_set? (r : Registers) (index : Nat) (value : Int64) :
    (r.set? index value).isSome ↔ index < r.size := by
  simp [set?]

theorem get?_set? {r s : Registers} {index : Nat} {value : Int64}
    (h : r.set? index value = some s) (other : Nat) :
    s.get? other = if other = index then some value else r.get? other := by
  simp only [set?] at h
  split at h <;> simp only [Option.some.injEq, reduceCtorEq] at h
  subst h
  split <;> rename_i hsize hcell
  · simp only [get?, Array.getD_eq_getD_getElem?, Array.getElem?_setIfInBounds]
    by_cases ho : other = index
    · simp [ho, hsize, hcell]
    · simp [ho, Ne.symm ho]
  · simp only [get?, Array.getD_eq_getD_getElem?]
    -- Behind the cells the gap is filled with zeros, which is what these registers held.
    by_cases ho : other = index
    · subst ho
      have hle : r.cells.size + (other - r.cells.size) = other := by omega
      simp only [Array.getElem?_push, Array.size_append, Array.size_replicate, hle, hsize]
      rfl
    · have hle : r.cells.size + (index - r.cells.size) = index := by omega
      simp only [Array.getElem?_push, Array.size_append, Array.size_replicate, hle, if_neg ho]
      split
      · congr 1
        rw [Array.getElem?_append]
        split
        · rfl
        · rename_i hlt
          rw [Array.getElem?_replicate, Array.getElem?_eq_none (by omega)]
          split <;> rfl
      · rfl

end Registers

end MutationLab
