import Mathlib.Data.List.Dedup
import Mathlib.Data.List.Sort
import Mathlib.Data.String.Basic
import MutationLab.Application
import MutationLab.Proofs.Ascending

/-! # Points by function

Pending points are kept by the name of their function, the names ascending. This file says what
that grouping is for a whole list of points, without the order in which it is built:
`Pending.ofPoints` takes the names of the mutated functions, each once and ascending, and gives
each the points on its function in their order. Registering one point after another builds exactly
this grouping (`Pending.add_ofPoints`). -/

namespace MutationLab

/-- The points on a function, in their order. -/
def pointsOn (points : List Point) (name : String) : List Point :=
  points.filter fun p => p.function = name

/-- The names of the functions that points mutate, ascending, each once. -/
def mutatedNames (points : List Point) : List String :=
  (points.map Point.function).dedup.mergeSort fun a b => decide (a ≤ b)

@[simp] theorem mem_pointsOn {points : List Point} {name : String} {p : Point} :
    p ∈ pointsOn points name ↔ p ∈ points ∧ p.function = name := by
  simp [pointsOn]

/-- One more point goes to its own function only. -/
theorem pointsOn_append_singleton (points : List Point) (p : Point) (name : String) :
    pointsOn (points ++ [p]) name =
      if p.function = name then pointsOn points name ++ [p] else pointsOn points name := by
  by_cases h : p.function = name
  · rw [if_pos h, pointsOn, List.filter_append, List.filter_singleton]
    simp [h, pointsOn]
  · rw [if_neg h, pointsOn, List.filter_append, List.filter_singleton]
    simp [h, pointsOn]

@[simp] theorem mem_mutatedNames {points : List Point} {name : String} :
    name ∈ mutatedNames points ↔ ∃ p ∈ points, p.function = name := by
  simp [mutatedNames]

@[simp] theorem mutatedNames_nil : mutatedNames [] = [] := by
  simp [mutatedNames]

/-- The mutated names ascend. -/
theorem pairwise_mutatedNames (points : List Point) :
    (mutatedNames points).Pairwise (· < ·) := by
  have hsorted : (mutatedNames points).Pairwise (· ≤ ·) := by
    have h : (mutatedNames points).Pairwise fun a b => decide (a ≤ b) = true := by
      refine List.pairwise_mergeSort (fun a b c hab hbc => ?_) (fun a b => ?_) _
      · rw [decide_eq_true_iff] at hab hbc ⊢
        exact le_trans hab hbc
      · rw [Bool.or_eq_true, decide_eq_true_iff, decide_eq_true_iff]
        exact le_total a b
    exact h.imp fun hab => of_decide_eq_true hab
  have hnodup : (mutatedNames points).Nodup :=
    (List.mergeSort_perm _ _).nodup_iff.mpr (List.nodup_dedup _)
  exact (hsorted.and hnodup).imp fun h => lt_of_le_of_ne h.1 h.2

theorem nodup_mutatedNames (points : List Point) : (mutatedNames points).Nodup :=
  (pairwise_mutatedNames points).imp fun h => ne_of_lt h

namespace Pending

/-- Points by the names of their functions. -/
def ofPoints (points : List Point) : Pending :=
  (mutatedNames points).map fun name => (name, pointsOn points name)

@[simp] theorem map_fst_ofPoints (points : List Point) :
    (ofPoints points).map Prod.fst = mutatedNames points := by
  rw [ofPoints, List.map_map]
  exact List.map_id' _

@[simp] theorem ofPoints_nil : ofPoints [] = [] := by
  simp [ofPoints]

/-- Nothing is pending exactly when there is no point. -/
@[simp] theorem ofPoints_eq_nil {points : List Point} : ofPoints points = [] ↔ points = [] := by
  constructor
  · intro h
    have hnames : mutatedNames points = [] := by rw [← map_fst_ofPoints, h, List.map_nil]
    cases points with
    | nil => rfl
    | cons p ps =>
      have hmem : p.function ∈ mutatedNames (p :: ps) :=
        mem_mutatedNames.mpr ⟨p, List.mem_cons_self, rfl⟩
      rw [hnames] at hmem
      exact absurd hmem List.not_mem_nil
  · rintro rfl
    exact ofPoints_nil

/-- Adding a point changes the entry of its function or makes one. -/
theorem add_eq_upsert (p : Point) (pending : Pending) :
    add p pending = upsert (· < ·) Prod.fst (p.function, [p])
      (fun entry => (entry.1, entry.2 ++ [p])) pending := by
  induction pending with
  | nil => rfl
  | cons entry rest ih => rw [add, upsert, ih]

/-- What stands in a grouping after a point has been added: the entries of other functions as they
were, and the point behind the others of its function. -/
theorem of_mem_add {pending : Pending} {p : Point} {entry : String × List Point}
    (hsorted : (pending.map Prod.fst).Pairwise (· < ·)) (h : entry ∈ add p pending) :
    entry ∈ pending ∧ entry.1 ≠ p.function ∨
      entry.1 = p.function ∧
        ∃ old, entry.2 = old ++ [p] ∧
          (old = [] ∧ p.function ∉ pending.map Prod.fst ∨ (p.function, old) ∈ pending) := by
  rw [add_eq_upsert] at h
  obtain hother | ⟨⟨name, points⟩, hold, hname, rfl⟩ | ⟨rfl, hnew⟩ := of_mem_upsert hsorted h
  · exact .inl hother
  · dsimp only at hname
    subst hname
    exact .inr ⟨rfl, points, rfl, .inr hold⟩
  · exact .inr ⟨rfl, [], rfl, .inl ⟨rfl, hnew⟩⟩

/-- The names of a grouping ascend. -/
theorem pairwise_map_fst_ofPoints (points : List Point) :
    ((ofPoints points).map Prod.fst).Pairwise (· < ·) := by
  rw [map_fst_ofPoints]
  exact pairwise_mutatedNames points

/-- The names behind adding a point are those of all points. -/
theorem map_fst_add_ofPoints (points : List Point) (p : Point) :
    (add p (ofPoints points)).map Prod.fst = mutatedNames (points ++ [p]) := by
  have hkey : ∀ entry : String × List Point, (entry.1, entry.2 ++ [p]).1 = entry.1 :=
    fun _ => rfl
  rw [add_eq_upsert]
  refine (pairwise_map_key_upsert hkey (pairwise_map_fst_ofPoints points)).eq_of_mem_iff
    (pairwise_mutatedNames _) fun name => ?_
  rw [mem_map_key_upsert hkey, map_fst_ofPoints, mem_mutatedNames, mem_mutatedNames]
  simp only [List.mem_append, List.mem_singleton]
  constructor
  · rintro (rfl | ⟨q, hq, hname⟩)
    · exact ⟨p, .inr rfl, rfl⟩
    · exact ⟨q, .inl hq, hname⟩
  · rintro ⟨q, hq | rfl, hname⟩
    · exact .inr ⟨q, hq, hname⟩
    · exact .inl hname.symm

/-- Each entry behind adding a point lists the points on its function. -/
theorem snd_of_mem_add_ofPoints {points : List Point} {p : Point} {entry : String × List Point}
    (h : entry ∈ add p (ofPoints points)) : entry.2 = pointsOn (points ++ [p]) entry.1 := by
  obtain ⟨name, ps⟩ := entry
  rw [pointsOn_append_singleton]
  obtain ⟨hmem, hother⟩ | ⟨hfst, old, hsnd, hold⟩ := of_mem_add (pairwise_map_fst_ofPoints points) h
  · obtain ⟨other, -, heq⟩ := List.mem_map.mp hmem
    rw [Prod.mk.injEq] at heq
    rw [if_neg (Ne.symm hother), ← heq.1, ← heq.2]
  · dsimp only at hfst hsnd
    rw [if_pos hfst.symm, hsnd]
    obtain ⟨rfl, hnew⟩ | hmem := hold
    · -- The point is the first one on its function.
      have hnone : pointsOn points name = [] := by
        rw [List.eq_nil_iff_forall_not_mem]
        intro q hq
        rw [map_fst_ofPoints, mem_mutatedNames] at hnew
        exact hnew ⟨q, (mem_pointsOn.mp hq).1, by rw [(mem_pointsOn.mp hq).2, hfst]⟩
      rw [hnone]
    · obtain ⟨other, -, heq⟩ := List.mem_map.mp hmem
      rw [Prod.mk.injEq] at heq
      rw [← heq.2, heq.1, hfst]

/-- **Registering groups points.** Adding a point to the grouping of others gives the grouping of
all of them. -/
theorem add_ofPoints (points : List Point) (p : Point) :
    add p (ofPoints points) = ofPoints (points ++ [p]) := by
  -- An entry is known from its name, so it is enough that the names agree.
  have hentries : ∀ entry ∈ add p (ofPoints points),
      entry = (entry.1, pointsOn (points ++ [p]) entry.1) :=
    fun entry hentry => Prod.ext rfl (snd_of_mem_add_ofPoints hentry)
  calc add p (ofPoints points)
      = ((add p (ofPoints points)).map Prod.fst).map
          fun name => (name, pointsOn (points ++ [p]) name) := by
        rw [List.map_map]
        exact (List.map_id' _).symm.trans (List.map_congr_left hentries)
    _ = ofPoints (points ++ [p]) := by rw [map_fst_add_ofPoints, ofPoints]

end Pending

end MutationLab
