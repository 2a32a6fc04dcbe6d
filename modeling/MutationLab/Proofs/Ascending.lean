import Mathlib.Data.List.Basic
import Mathlib.Data.String.Basic
import Mathlib.Order.Defs.Unbundled

/-! # Ascending lists

Pending points, candidates and traces are lists of entries with keys, the keys ascending and each of
them once. They grow by one rule: the entry of a key is changed if there is one, and else a new
entry is put where its key belongs (`upsert`). Points and their results are sorted by texts that
need not be distinct; such a list is known from its order alone (`mergeSort_eq_self`). -/

namespace MutationLab

/-- Change the entry of the key of `fresh`, or put `fresh` in where its key belongs. -/
def upsert (lt : κ → κ → Prop) [DecidableRel lt] [DecidableEq κ] (key : α → κ) (fresh : α)
    (change : α → α) : List α → List α
  | [] => [fresh]
  | x :: xs =>
      if key fresh = key x then change x :: xs
      else if lt (key fresh) (key x) then fresh :: x :: xs
      else x :: upsert lt key fresh change xs

variable {lt : κ → κ → Prop} [DecidableRel lt] [DecidableEq κ] {key : α → κ} {fresh : α}
  {change : α → α} (hchange : ∀ x, key (change x) = key x) {xs : List α}

include hchange in
/-- One key is added. -/
theorem mem_map_key_upsert {k : κ} :
    k ∈ (upsert lt key fresh change xs).map key ↔ k = key fresh ∨ k ∈ xs.map key := by
  induction xs with
  | nil => simp [upsert]
  | cons x xs ih =>
    rw [upsert]
    split
    · rename_i heq
      simp [hchange, heq]
    · split
      · simp
      · rw [List.map_cons, List.mem_cons, ih, List.map_cons, List.mem_cons]
        exact or_left_comm

variable [IsStrictTotalOrder κ lt]

include hchange in
/-- The keys still ascend. -/
theorem pairwise_map_key_upsert (h : (xs.map key).Pairwise lt) :
    ((upsert lt key fresh change xs).map key).Pairwise lt := by
  induction xs with
  | nil => simp [upsert]
  | cons x xs ih =>
    rw [List.map_cons, List.pairwise_cons] at h
    rw [upsert]
    -- The fresh key is that of the first element, it is less, or it belongs further behind.
    split
    · rw [List.map_cons, List.pairwise_cons, hchange]
      exact h
    · rename_i hne
      split
      · rename_i hlt
        rw [List.map_cons, List.pairwise_cons, List.map_cons, List.pairwise_cons]
        refine ⟨fun k hk => ?_, h⟩
        obtain rfl | hk := List.mem_cons.mp hk
        · exact hlt
        · exact trans_of lt hlt (h.1 k hk)
      · rename_i hge
        rw [List.map_cons, List.pairwise_cons]
        refine ⟨fun k hk => ?_, ih h.2⟩
        obtain rfl | hk := (mem_map_key_upsert hchange).mp hk
        · exact (trichotomous_of lt (key fresh) (key x)).resolve_left hge |>.resolve_left hne
        · exact h.1 k hk

/-- What stands in the list then: the entries of other keys, and the one of the key, which is
changed or new. -/
theorem of_mem_upsert (hsorted : (xs.map key).Pairwise lt) {x : α}
    (h : x ∈ upsert lt key fresh change xs) :
    x ∈ xs ∧ key x ≠ key fresh ∨ (∃ old ∈ xs, key old = key fresh ∧ x = change old) ∨
      x = fresh ∧ key fresh ∉ xs.map key := by
  induction xs with
  | nil =>
    obtain rfl := List.mem_singleton.mp h
    exact .inr (.inr ⟨rfl, List.not_mem_nil⟩)
  | cons first rest ih =>
    rw [List.map_cons, List.pairwise_cons] at hsorted
    rw [upsert] at h
    split at h
    · -- The key has an entry already, and no other one.
      rename_i heq
      obtain rfl | hmem := List.mem_cons.mp h
      · exact .inr (.inl ⟨first, List.mem_cons_self, heq.symm, rfl⟩)
      · have hlt := hsorted.1 (key x) (List.mem_map_of_mem hmem)
        refine .inl ⟨List.mem_cons_of_mem _ hmem, fun hkey => ?_⟩
        rw [hkey, heq] at hlt
        exact irrefl_of lt _ hlt
    · rename_i hne
      split at h
      · -- The key comes before all others, so none of them is the same.
        rename_i hlt
        have hnew : key fresh ∉ (first :: rest).map key := by
          rw [List.map_cons, List.mem_cons, not_or]
          refine ⟨hne, fun hmem => ?_⟩
          exact irrefl_of lt _ (trans_of lt hlt (hsorted.1 _ hmem))
        obtain rfl | hmem := List.mem_cons.mp h
        · exact .inr (.inr ⟨rfl, hnew⟩)
        · exact .inl ⟨hmem, fun heq => hnew (heq ▸ List.mem_map_of_mem hmem)⟩
      · obtain rfl | hmem := List.mem_cons.mp h
        · exact .inl ⟨List.mem_cons_self, fun heq => hne heq.symm⟩
        · obtain ⟨hmem, hother⟩ | ⟨old, hold, hx⟩ | ⟨hx, hnew⟩ := ih hsorted.2 hmem
          · exact .inl ⟨List.mem_cons_of_mem _ hmem, hother⟩
          · exact .inr (.inl ⟨old, List.mem_cons_of_mem _ hold, hx⟩)
          · refine .inr (.inr ⟨hx, ?_⟩)
            rw [List.map_cons, List.mem_cons, not_or]
            exact ⟨hne, hnew⟩

/-! ## Sorting by a text -/

/-- Sorted entries ascend. -/
theorem pairwise_mergeSort (text : α → String) (xs : List α) :
    (xs.mergeSort fun a b => !(text b < text a)).Pairwise fun a b => text a ≤ text b := by
  have hsorted : (xs.mergeSort fun a b => !(text b < text a)).Pairwise
      fun a b => (!decide (text b < text a)) = true := by
    refine List.pairwise_mergeSort (fun a b c hab hbc => ?_) (fun a b => ?_) xs
    · rw [Bool.not_eq_true', decide_eq_false_iff_not, not_lt] at hab hbc ⊢
      exact le_trans hab hbc
    · rw [Bool.or_eq_true, Bool.not_eq_true', Bool.not_eq_true', decide_eq_false_iff_not,
        decide_eq_false_iff_not, not_lt, not_lt]
      exact le_total _ _
  refine hsorted.imp fun hab => ?_
  rwa [Bool.not_eq_true', decide_eq_false_iff_not, not_lt] at hab

/-- Entries that ascend are sorted, also those with one text. -/
theorem mergeSort_eq_self (text : α → String) {xs : List α}
    (h : xs.Pairwise fun a b => text a ≤ text b) :
    (xs.mergeSort fun a b => !(text b < text a)) = xs := by
  refine List.mergeSort_of_pairwise (h.imp fun hab => ?_)
  rwa [Bool.not_eq_true', decide_eq_false_iff_not, not_lt]

/-! ## Numbers of 32 bits -/

instance isStrictTotalOrder_uint32 : IsStrictTotalOrder UInt32 (· < ·) where
  irrefl := UInt32.lt_irrefl
  trans _ _ _ := UInt32.lt_trans
  trichotomous _ _ hab hba := by
    rw [UInt32.not_lt] at hab hba
    exact UInt32.le_antisymm hba hab

/-- The lesser of two depths, as a number. -/
theorem toNat_min (a b : UInt32) : (min a b).toNat = min a.toNat b.toNat := by
  show (if a ≤ b then a else b).toNat = _
  split
  · rename_i hle
    rw [Nat.min_eq_left (UInt32.le_iff_toNat_le.mp hle)]
  · rename_i hlt
    rw [UInt32.le_iff_toNat_le] at hlt
    rw [Nat.min_eq_right (by omega)]

end MutationLab
