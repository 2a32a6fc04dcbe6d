/-! # Partitions

A number of items is dealt out to workers in consecutive ranges whose sizes differ by
at most one, the greater ones first. -/

namespace MutationLab

/-- A range from its first item to before its last. -/
structure Range where
  first : Nat
  last : Nat
  deriving DecidableEq, Repr

namespace Partition

/-- The size of a worker's range. -/
def size (items workers worker : Nat) : Nat :=
  items / workers + if worker < items % workers then 1 else 0

/-- The ranges of the remaining workers from `worker` on, the next item being `first`. -/
def rangesFrom (items workers : Nat) : (remaining worker first : Nat) → List Range
  | 0, _, _ => []
  | remaining + 1, worker, first =>
      let last := first + size items workers worker
      ⟨first, last⟩ :: rangesFrom items workers remaining (worker + 1) last

/-- The ranges of all workers; no worker counts as one. -/
def ranges (items workers : Nat) : List Range :=
  rangesFrom items (max workers 1) (max workers 1) 0 0

/-- Cut a list into pieces of given sizes. -/
def cut : List Nat → List α → List (List α)
  | [], _ => []
  | n :: ns, xs => xs.take n :: cut ns (xs.drop n)

/-- The items of every worker. -/
def slices (workers : Nat) (xs : List α) : List (List α) :=
  cut ((ranges xs.length workers).map fun r => r.last - r.first) xs

end Partition

end MutationLab
