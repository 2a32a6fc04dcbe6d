/-! # Spans of time

A span of time is a whole number of nanoseconds. Its whole seconds fit 64 bits, so that two
spans together can be too long for one. -/

namespace MutationLab

namespace Duration

/-- Every span of time is shorter than this many nanoseconds. -/
def bound : Nat := UInt64.size * 1000000000

end Duration

/-- A span of time. -/
structure Duration where
  nanos : Nat
  nanos_lt : nanos < Duration.bound
  deriving DecidableEq, Repr

namespace Duration

/-- No time. -/
def zero : Duration := ⟨0, by decide⟩

/-- So many nanoseconds, if a span of time can be that long. -/
def ofNanos? (nanos : Nat) : Option Duration :=
  if h : nanos < bound then some ⟨nanos, h⟩ else none

theorem ofNanos?_eq_some_iff {n : Nat} {d : Duration} : ofNanos? n = some d ↔ d.nanos = n := by
  rw [ofNanos?]
  split
  · rw [Option.some.injEq, Duration.mk.injEq]
    exact eq_comm
  · rename_i hlong
    constructor
    · intro h
      cases h
    · rintro rfl
      exact absurd d.nanos_lt hlong

theorem isSome_ofNanos?_iff {n : Nat} : (ofNanos? n).isSome ↔ n < bound := by
  rw [ofNanos?]
  split <;> simp [*]

/-- So many microseconds. -/
def ofMicros (micros : UInt64) : Duration where
  nanos := micros.toNat * 1000
  nanos_lt := by
    have := micros.toNat_lt
    unfold bound UInt64.size
    omega

/-- The whole milliseconds. -/
def millis (d : Duration) : Nat := d.nanos / 1000000

/-- Two spans together, if this is not too long. -/
def add? (a b : Duration) : Option Duration := ofNanos? (a.nanos + b.nanos)

instance : LE Duration := ⟨fun a b => a.nanos ≤ b.nanos⟩

theorem le_refl (d : Duration) : d ≤ d := Nat.le_refl d.nanos

/-- The time from an earlier moment to a later one, both given by the time that has passed at
them. -/
def since (later earlier : Duration) : Duration where
  nanos := later.nanos - earlier.nanos
  nanos_lt := Nat.lt_of_le_of_lt (Nat.sub_le ..) later.nanos_lt

end Duration

end MutationLab
