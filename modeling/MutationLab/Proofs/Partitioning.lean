import Mathlib.Data.List.Chain
import MutationLab.Proofs.Pools

/-! # Ranges of a partition

The ranges of the workers lie between the borders `0 = b 0 ≤ b 1 ≤ … ≤ b n`, where the first
borders are one item further apart than the others (`Partition.ranges_eq_map`). So they follow one
another without a gap from the first item to the last. No border lies behind the last item, and so
the sums that lead to it stay within a word of 64 bits whenever the number of items does
(`Partition.rangesWithin_eq`). -/

namespace MutationLab

namespace Partition

/-! ## Borders -/

/-- How many items the first workers have together. -/
def border (items workers count : Nat) : Nat :=
  ((List.range count).map (size items workers)).sum

@[simp] theorem border_zero (items workers : Nat) : border items workers 0 = 0 := rfl

/-- The next worker moves the border by the size of its range. -/
theorem border_succ (items workers count : Nat) :
    border items workers (count + 1) = border items workers count + size items workers count := by
  rw [border, List.range_succ, List.map_append, List.sum_append, List.map_singleton,
    List.sum_singleton, border]

/-- All workers together have all items. -/
theorem border_self (items : Nat) {workers : Nat} (hworkers : 0 < workers) :
    border items workers workers = items := by
  have hlt := Nat.mod_lt items hworkers
  rw [border, sum_size, Nat.min_eq_right hlt.le]
  exact Nat.div_add_mod items workers

theorem border_le_succ (items workers count : Nat) :
    border items workers count ≤ border items workers (count + 1) := by
  rw [border_succ]
  exact Nat.le_add_right _ _

/-- Some workers have no more items than all. -/
theorem border_le {items workers count : Nat} (hworkers : 0 < workers) (hcount : count ≤ workers) :
    border items workers count ≤ items :=
  calc border items workers count
      ≤ border items workers workers :=
        monotone_nat_of_le_succ (border_le_succ items workers) hcount
    _ = items := border_self items hworkers

/-- The range of a worker. -/
def rangeAt (items workers worker : Nat) : Range :=
  ⟨border items workers worker, border items workers (worker + 1)⟩

/-- A range is as long as its worker's share. -/
theorem length_rangeAt (items workers worker : Nat) :
    (rangeAt items workers worker).last - (rangeAt items workers worker).first =
      size items workers worker := by
  rw [rangeAt, border_succ, Nat.add_sub_cancel_left]

theorem rangesFrom_eq_map (items workers remaining worker : Nat) :
    rangesFrom items workers remaining worker (border items workers worker) =
      (List.range' worker remaining).map (rangeAt items workers) := by
  induction remaining generalizing worker with
  | zero => rfl
  | succ remaining ih =>
    rw [rangesFrom, ← border_succ, ih, List.range'_succ, List.map_cons, rangeAt]

/-- **The ranges lie between the borders.** -/
theorem ranges_eq_map (items workers : Nat) :
    ranges items workers =
      (List.range (max workers 1)).map (rangeAt items (max workers 1)) := by
  have h := rangesFrom_eq_map items (max workers 1) (max workers 1) 0
  rwa [border_zero, ← List.range_eq_range'] at h

/-- Earlier workers have no fewer items than later ones. -/
theorem size_antitone (items workers : Nat) : Antitone (size items workers) := by
  intro worker later hle
  rw [size, size]
  split <;> split <;> omega

/-- No worker has more than one item more than another. -/
theorem size_le_succ (items workers worker other : Nat) :
    size items workers worker ≤ size items workers other + 1 := by
  rw [size, size]
  split <;> split <;> omega

/-! ## Words -/

/-- The sum of two numbers, if it is one of 64 bits. -/
def sumWithin (a b : Nat) : Option Nat := if a + b < 2 ^ 64 then some (a + b) else none

/-- The size of a worker's range, every sum being one of 64 bits. -/
def sizeWithin (items workers worker : Nat) : Option Nat :=
  sumWithin (items / workers) (if worker < items % workers then 1 else 0)

/-- The ranges from a worker on, every sum being one of 64 bits. -/
def rangesFromWithin (items workers : Nat) :
    (remaining worker first : Nat) → Option (List Range)
  | 0, _, _ => some []
  | remaining + 1, worker, first => do
      let size ← sizeWithin items workers worker
      let last ← sumWithin first size
      let others ← rangesFromWithin items workers remaining (worker + 1) last
      return ⟨first, last⟩ :: others

/-- The ranges of all workers, every sum being one of 64 bits. -/
def rangesWithin (items workers : Nat) : Option (List Range) :=
  rangesFromWithin items (max workers 1) (max workers 1) 0 0

theorem sumWithin_of_lt {a b : Nat} (h : a + b < 2 ^ 64) : sumWithin a b = some (a + b) :=
  if_pos h

theorem rangesFromWithin_eq {items workers : Nat} (hitems : items < 2 ^ 64)
    (hworkers : 0 < workers) {remaining worker : Nat} (hcount : worker + remaining ≤ workers) :
    rangesFromWithin items workers remaining worker (border items workers worker) =
      some (rangesFrom items workers remaining worker (border items workers worker)) := by
  induction remaining generalizing worker with
  | zero => rfl
  | succ remaining ih =>
    -- The next border is one of at most `items` items, and the share is a part of it.
    have hborder : border items workers (worker + 1) ≤ items := border_le hworkers (by omega)
    rw [border_succ] at hborder
    have hsize : sizeWithin items workers worker = some (size items workers worker) :=
      sumWithin_of_lt (by rw [size] at hborder; omega)
    have hlast : sumWithin (border items workers worker) (size items workers worker) =
        some (border items workers (worker + 1)) := by
      rw [border_succ]
      exact sumWithin_of_lt (by omega)
    have hothers : rangesFromWithin items workers remaining (worker + 1)
        (border items workers (worker + 1)) = some (rangesFrom items workers remaining (worker + 1)
          (border items workers (worker + 1))) := ih (by omega)
    rw [rangesFromWithin, rangesFrom, ← border_succ]
    simp only [hsize, hlast, hothers, Option.bind_eq_bind, Option.bind_some]
    rfl

/-- **No sum leaves a word of 64 bits.** -/
theorem rangesWithin_eq {items : Nat} (hitems : items < 2 ^ 64) (workers : Nat) :
    rangesWithin items workers = some (ranges items workers) := by
  have hworkers : 0 < max workers 1 := by omega
  have hcount : 0 + max workers 1 ≤ max workers 1 := by omega
  have h := rangesFromWithin_eq hitems hworkers hcount
  rwa [border_zero] at h

/-! ## Covers -/

/-- Ranges that follow one another from the first of some items to the last, as evenly as can be. -/
structure Covers (rs : List Range) (items : Nat) : Prop where
  /-- The first range begins with the first item. -/
  head : rs.head?.map Range.first = some 0
  /-- Every range begins where the one before it ends. -/
  chain : rs.IsChain fun r next => r.last = next.first
  /-- The last range ends with the last item. -/
  last : rs.getLast?.map Range.last = some items
  /-- No range ends before it begins. -/
  forward : ∀ r ∈ rs, r.first ≤ r.last
  /-- No two sizes differ by more than one. -/
  even : ∀ r ∈ rs, ∀ other ∈ rs, r.last - r.first ≤ (other.last - other.first) + 1
  /-- No size is less than one behind it. -/
  falling : rs.Pairwise fun r later => later.last - later.first ≤ r.last - r.first

/-- The ranges of workers cover the items. -/
theorem covers_ranges (items workers : Nat) : Covers (ranges items workers) items := by
  have hpos : 0 < max workers 1 := by omega
  obtain ⟨others, hothers⟩ : ∃ others, max workers 1 = others + 1 := ⟨max workers 1 - 1, by omega⟩
  rw [ranges_eq_map]
  refine ⟨?_, ?_, ?_, ?_, ?_, ?_⟩
  · rw [hothers, List.range_succ_eq_map]
    simp [rangeAt]
  · rw [List.isChain_map, List.isChain_iff_getElem]
    intro i hi
    rw [List.getElem_range, List.getElem_range]
    rfl
  · have hborder := border_self items hpos
    rw [hothers] at hborder
    rw [hothers, List.range_succ]
    simp [rangeAt, hborder]
  · intro r hr
    obtain ⟨worker, -, rfl⟩ := List.mem_map.mp hr
    exact border_le_succ items _ worker
  · intro r hr other hother
    obtain ⟨worker, -, rfl⟩ := List.mem_map.mp hr
    obtain ⟨otherWorker, -, rfl⟩ := List.mem_map.mp hother
    rw [length_rangeAt, length_rangeAt]
    exact size_le_succ items _ worker otherWorker
  · rw [List.pairwise_map]
    refine List.pairwise_lt_range.imp fun {worker later} hlt => ?_
    rw [length_rangeAt, length_rangeAt]
    exact size_antitone items _ hlt.le

/-- The pieces of a list have the sizes that are asked for, if there are so many elements. -/
theorem map_length_cut {sizes : List Nat} {xs : List α} (h : sizes.sum ≤ xs.length) :
    (cut sizes xs).map List.length = sizes := by
  induction sizes generalizing xs with
  | nil => rfl
  | cons n ns ih =>
    rw [List.sum_cons] at h
    rw [cut, List.map_cons, List.length_take_of_le (by omega), ih]
    rw [List.length_drop]
    omega

/-- **A partition is an exact and balanced cover.** Whatever the number of items is and however many
workers there are, no worker counting as one: there is one range for each worker; the first begins
with the first item, each begins where the one before it ends, and the last ends with the last item;
their sizes differ by at most one and never increase. If the number of items is one of 64 bits, so
is every sum on the way. And the slices of a list that are cut out by these sizes are the list: each
of its elements is in one of them, in order, also if there are more workers than elements. -/
theorem ranges_exact {items : Nat} (hitems : items < 2 ^ 64) (workers : Nat) :
    (ranges items workers).length = max workers 1 ∧
    Covers (ranges items workers) items ∧
    rangesWithin items workers = some (ranges items workers) ∧
    ∀ {α : Type} (xs : List α), xs.length = items →
      (slices workers xs).map List.length =
          (ranges items workers).map (fun r => r.last - r.first) ∧
        (slices workers xs).flatten = xs := by
  refine ⟨length_rangesFrom .., covers_ranges items workers, rangesWithin_eq hitems workers, ?_⟩
  rintro α xs rfl
  refine ⟨?_, flatten_slices workers xs⟩
  exact map_length_cut (sum_ranges xs.length workers).le

/-- `ranges_exact` for three workers, close to the greatest number of 64 bits. -/
theorem ranges_exact_example :
    ranges (2 ^ 64 - 2) 3 =
        [⟨0, 6148914691236517205⟩, ⟨6148914691236517205, 12297829382473034410⟩,
          ⟨12297829382473034410, 18446744073709551614⟩] ∧
      rangesWithin (2 ^ 64 - 2) 3 = some (ranges (2 ^ 64 - 2) 3) ∧
      Covers (ranges (2 ^ 64 - 2) 3) (2 ^ 64 - 2) := by
  obtain ⟨-, hcovers, hwithin, -⟩ := ranges_exact (by decide : 2 ^ 64 - 2 < 2 ^ 64) 3
  exact ⟨by decide, hwithin, hcovers⟩

end Partition

end MutationLab
