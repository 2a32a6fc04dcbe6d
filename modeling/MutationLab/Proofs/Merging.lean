import Mathlib.Data.List.Induction
import Mathlib.Data.List.Sort
import Mathlib.Data.String.Basic
import Mathlib.Order.Bounds.Basic
import MutationLab.Filter
import MutationLab.Proofs.Ascending

/-! # What merging coverage gives

Records are merged into candidates one after the other. Whatever their order, there is one candidate
for each function that has a record, in ascending order, with all tests of its records and the least
of their distances (`Candidate.merged_merge`). This says everything about the candidates
(`Candidate.Merged.unique`), so neither the order of the records nor how often one of them comes has
a part in it (`Candidate.merge_of_same_records`). -/

namespace MutationLab

namespace Example

/-- Records of two functions: one is reached by two tests, the other one by one of them. -/
def reached : List CoverageRecord :=
  [⟨⟨0, "leaf"⟩, 1, 1⟩, ⟨⟨0, "leaf"⟩, 0, 3⟩, ⟨⟨0, "root"⟩, 0, 2⟩]

/-- A function without code. -/
def blank : Function := { name := "blank", body := [] }

end Example

/-! ## The order of functions -/

namespace FunctionKey

variable {a b c : FunctionKey}

theorem lt_iff : a.lt b = true ↔ a.module < b.module ∨ a.module = b.module ∧ a.name < b.name := by
  simp [lt]

theorem lt_irrefl (a : FunctionKey) : ¬ a.lt a = true := by
  rw [lt_iff]
  rintro (hlt | ⟨-, hlt⟩)
  · exact Nat.lt_irrefl _ hlt
  · exact hlt.false

theorem lt_trans (hab : a.lt b = true) (hbc : b.lt c = true) : a.lt c = true := by
  rw [lt_iff] at hab hbc ⊢
  obtain hab | ⟨hab, hname⟩ := hab
  · obtain hbc | ⟨hbc, -⟩ := hbc
    · exact .inl (Nat.lt_trans hab hbc)
    · exact .inl (hbc ▸ hab)
  · rw [hab]
    exact hbc.imp_right fun ⟨hbc, hname'⟩ => ⟨hbc, hname.trans hname'⟩

/-- Of two functions one comes first. -/
theorem lt_of_not_lt (h : ¬ a.lt b = true) (hne : a ≠ b) : b.lt a = true := by
  rw [lt_iff, not_or, not_and] at h
  rw [lt_iff]
  by_cases hmodule : a.module = b.module
  · have hname : a.name ≠ b.name := by
      intro hname
      obtain ⟨module, name⟩ := a
      exact hne (congrArg₂ FunctionKey.mk hmodule hname)
    exact .inr ⟨hmodule.symm, lt_of_le_of_ne (not_lt.mp (h.2 hmodule)) hname.symm⟩
  · exact .inl (Nat.lt_of_le_of_ne (Nat.le_of_not_lt h.1) (Ne.symm hmodule))

instance : IsStrictTotalOrder FunctionKey fun a b => a.lt b = true where
  irrefl := lt_irrefl
  trans _ _ _ := lt_trans
  trichotomous _ _ hab hba := by
    by_contra hne
    exact hba (lt_of_not_lt hab hne)

end FunctionKey

/-! ## Tests in ascending order -/

/-- Adding a number keeps it if it is there. -/
theorem insertSorted_eq_upsert (n : Nat) (ns : List Nat) :
    insertSorted n ns = upsert (· < ·) id n id ns := by
  induction ns with
  | nil => rfl
  | cons m ms ih =>
    rw [insertSorted, upsert, ih]
    by_cases heq : n = m <;> simp [heq]

theorem mem_insertSorted {n m : Nat} {ns : List Nat} :
    m ∈ insertSorted n ns ↔ m = n ∨ m ∈ ns := by
  have hkey : ∀ k : Nat, id (id k) = id k := fun _ => rfl
  rw [insertSorted_eq_upsert, ← List.map_id (upsert _ _ _ _ _), mem_map_key_upsert hkey,
    List.map_id, id]

theorem pairwise_insertSorted {n : Nat} {ns : List Nat} (h : ns.Pairwise (· < ·)) :
    (insertSorted n ns).Pairwise (· < ·) := by
  have hkey : ∀ k : Nat, id (id k) = id k := fun _ => rfl
  rw [insertSorted_eq_upsert, ← List.map_id (upsert _ _ _ _ _)]
  rw [← List.map_id ns] at h
  exact pairwise_map_key_upsert hkey h

namespace Candidate

/-! ## One more record -/

section

variable {r : CoverageRecord} {c : Candidate} {cs : List Candidate}

/-- One more record changes the candidate of its function or makes one. -/
theorem insert_eq_upsert :
    insert r cs = upsert (fun a b => a.lt b = true) Candidate.function (ofRecord r)
      (fun c => c.absorb r) cs := by
  induction cs with
  | nil => rfl
  | cons c cs ih =>
    rw [insert, upsert, ih]
    rfl

end

/-! ## All records -/

/-- A candidate sums up the records of its function. -/
structure Sums (records : List CoverageRecord) (c : Candidate) : Prop where
  ascending : c.tests.Pairwise (· < ·)
  mem_tests : ∀ test, test ∈ c.tests ↔ ∃ r ∈ records, r.function = c.function ∧ r.test = test
  distance : IsLeast {d | ∃ r ∈ records, r.function = c.function ∧ r.distance.toNat = d}
    c.distance.toNat
  selected : c.selected = []

namespace Sums

variable {records : List CoverageRecord} {c : Candidate} {r : CoverageRecord}

/-- A record of another function changes nothing. -/
theorem append_of_ne (h : c.Sums records) (hne : c.function ≠ r.function) :
    c.Sums (records ++ [r]) := by
  have hrecords : ∀ P : CoverageRecord → Prop,
      (∃ q ∈ records ++ [r], q.function = c.function ∧ P q) ↔
      ∃ q ∈ records, q.function = c.function ∧ P q := by
    intro P
    constructor
    · rintro ⟨q, hq, hfunction, hP⟩
      obtain hq | hq := List.mem_append.mp hq
      · exact ⟨q, hq, hfunction, hP⟩
      · obtain rfl := List.mem_singleton.mp hq
        exact absurd hfunction.symm hne
    · rintro ⟨q, hq, h⟩
      exact ⟨q, List.mem_append_left _ hq, h⟩
  refine ⟨h.ascending, fun test => ?_, ?_, h.selected⟩
  · rw [hrecords, h.mem_tests]
  · simp only [hrecords]
    exact h.distance

/-- A record of the function is absorbed. -/
theorem absorb (h : c.Sums records) (hfunction : c.function = r.function) :
    (c.absorb r).Sums (records ++ [r]) := by
  refine ⟨pairwise_insertSorted h.ascending, fun test => ?_, ⟨?_, ?_⟩, h.selected⟩
  · rw [Candidate.absorb, mem_insertSorted, h.mem_tests]
    constructor
    · rintro (rfl | ⟨q, hq, hq'⟩)
      · exact ⟨r, by simp, hfunction.symm, rfl⟩
      · exact ⟨q, List.mem_append_left _ hq, hq'⟩
    · rintro ⟨q, hq, hq', htest⟩
      obtain hq | hq := List.mem_append.mp hq
      · exact .inr ⟨q, hq, hq', htest⟩
      · obtain rfl := List.mem_singleton.mp hq
        exact .inl htest.symm
  -- The least distance is the old one or that of the record.
  · rw [Candidate.absorb, toNat_min]
    obtain ⟨⟨q, hq, hq', hdistance⟩, -⟩ := h.distance
    by_cases hle : c.distance.toNat ≤ r.distance.toNat
    · rw [min_eq_left hle]
      exact ⟨q, List.mem_append_left _ hq, hq', hdistance⟩
    · rw [min_eq_right (by omega)]
      exact ⟨r, by simp, hfunction.symm, rfl⟩
  · rw [Candidate.absorb, toNat_min]
    rintro d ⟨q, hq, hq', rfl⟩
    obtain hq | hq := List.mem_append.mp hq
    · exact (min_le_left _ _).trans (h.distance.2 ⟨q, hq, hq', rfl⟩)
    · obtain rfl := List.mem_singleton.mp hq
      exact min_le_right _ _

/-- The first record of a function makes its candidate. -/
theorem ofRecord (h : ∀ q ∈ records, q.function ≠ r.function) :
    (ofRecord r).Sums (records ++ [r]) := by
  have hrecords : ∀ q ∈ records ++ [r], q.function = r.function → q = r := by
    intro q hq hfunction
    obtain hq | hq := List.mem_append.mp hq
    · exact absurd hfunction (h q hq)
    · exact List.mem_singleton.mp hq
  refine ⟨List.pairwise_singleton _ _, fun test => ?_, ⟨⟨r, by simp, rfl, rfl⟩, ?_⟩, rfl⟩
  · rw [Candidate.ofRecord, List.mem_singleton]
    constructor
    · rintro rfl
      exact ⟨r, by simp, rfl, rfl⟩
    · rintro ⟨q, hq, hq', rfl⟩
      rw [hrecords q hq hq']
  · rintro d ⟨q, hq, hq', rfl⟩
    rw [hrecords q hq hq']
    exact le_rfl

end Sums

/-- Candidates are what records merge into. -/
structure Merged (records : List CoverageRecord) (cs : List Candidate) : Prop where
  ascending : (cs.map Candidate.function).Pairwise fun a b => a.lt b = true
  functions : ∀ key, key ∈ cs.map Candidate.function ↔ ∃ r ∈ records, r.function = key
  sums : ∀ c ∈ cs, c.Sums records

/-- One more record is merged. -/
theorem Merged.insert {records : List CoverageRecord} {cs : List Candidate}
    (h : Merged records cs) (r : CoverageRecord) :
    Merged (records ++ [r]) (Candidate.insert r cs) := by
  have hkey : ∀ c : Candidate, (c.absorb r).function = c.function := fun _ => rfl
  rw [insert_eq_upsert]
  refine ⟨pairwise_map_key_upsert hkey h.ascending, fun key => ?_, fun c hc => ?_⟩
  · rw [mem_map_key_upsert hkey, h.functions]
    constructor
    · rintro (rfl | ⟨q, hq, hq'⟩)
      · exact ⟨r, by simp, rfl⟩
      · exact ⟨q, List.mem_append_left _ hq, hq'⟩
    · rintro ⟨q, hq, rfl⟩
      obtain hq | hq := List.mem_append.mp hq
      · exact .inr ⟨q, hq, rfl⟩
      · obtain rfl := List.mem_singleton.mp hq
        exact .inl rfl
  · obtain ⟨hc, hne⟩ | ⟨old, hold, hfunction, rfl⟩ | ⟨rfl, hnew⟩ := of_mem_upsert h.ascending hc
    · exact (h.sums c hc).append_of_ne hne
    · exact (h.sums old hold).absorb hfunction
    · refine Sums.ofRecord fun q hq hfunction => hnew ?_
      exact (h.functions _).mpr ⟨q, hq, hfunction⟩

/-- **Merging gives each function once**, in ascending order, with all tests of its records and the
least of their distances. -/
theorem merged_merge (records : List CoverageRecord) : Merged records (merge records) := by
  induction records using List.reverseRecOn with
  | nil => exact ⟨List.Pairwise.nil, fun key => by simp [merge], fun c hc => nomatch hc⟩
  | append_singleton records r ih =>
    rw [merge, List.foldl_append]
    exact ih.insert r

/-! ## Records as a set -/

section

variable {records others : List CoverageRecord}

/-- A candidate is known from its function and the records that it sums up. -/
theorem Sums.eq_of_function_eq {c d : Candidate} (hc : c.Sums records) (hd : d.Sums records)
    (hfunction : c.function = d.function) : c = d := by
  have htests : c.tests = d.tests := by
    refine hc.ascending.eq_of_mem_iff hd.ascending fun test => ?_
    rw [hc.mem_tests, hd.mem_tests, hfunction]
  have hdistance : c.distance = d.distance := by
    have hleast := hd.distance
    rw [← hfunction] at hleast
    exact UInt32.toNat_inj.mp (hc.distance.unique hleast)
  have hselected : c.selected = d.selected := hc.selected.trans hd.selected.symm
  obtain ⟨function, tests, distance, selected⟩ := c
  rw [Candidate.mk.injEq]
  exact ⟨hfunction, htests, hdistance, hselected⟩

/-- **Records merge into one list only.** -/
theorem Merged.unique {cs ds : List Candidate} (hcs : Merged records cs)
    (hds : Merged records ds) : cs = ds := by
  have hfunctions : cs.map function = ds.map function := by
    refine hcs.ascending.eq_of_mem_iff hds.ascending fun key => ?_
    rw [hcs.functions, hds.functions]
  have hlength : cs.length = ds.length := by
    simpa using congrArg List.length hfunctions
  refine List.ext_getElem hlength fun position hc hd => ?_
  refine (hcs.sums _ (List.getElem_mem hc)).eq_of_function_eq
    (hds.sums _ (List.getElem_mem hd)) ?_
  rw [← List.getElem_map function (h := by simpa using hc),
    ← List.getElem_map function (h := by simpa using hd)]
  simp only [hfunctions]

/-- What sums up records sums them up in every list that has just these records. -/
theorem Sums.congr {c : Candidate} (h : c.Sums records) (hsame : ∀ r, r ∈ others ↔ r ∈ records) :
    c.Sums others := by
  refine ⟨h.ascending, fun test => ?_, ?_, h.selected⟩
  · simp only [hsame]
    exact h.mem_tests test
  · simp only [hsame]
    exact h.distance

/-- Lists with the same records merge alike, whatever the order of the records and however often
one of them comes. -/
theorem merge_eq_of_mem_iff (hsame : ∀ r, r ∈ others ↔ r ∈ records) :
    merge others = merge records := by
  have h := merged_merge records
  refine (merged_merge others).unique ⟨h.ascending, fun key => ?_, fun c hc => ?_⟩
  · simp only [hsame]
    exact h.functions key
  · exact (h.sums c hc).congr hsame

/-- The distance of a candidate is within a limit if that of a record of its function is. -/
theorem Sums.distance_le_iff {c : Candidate} (h : c.Sums records) (limit : UInt32) :
    c.distance ≤ limit ↔ ∃ r ∈ records, r.function = c.function ∧ r.distance ≤ limit := by
  obtain ⟨⟨nearest, hnearest, hfunction, hdistance⟩, hleast⟩ := h.distance
  constructor
  · intro hle
    refine ⟨nearest, hnearest, hfunction, ?_⟩
    rw [UInt32.le_iff_toNat_le] at hle ⊢
    omega
  · rintro ⟨r, hr, hr', hle⟩
    have hbound := hleast ⟨r, hr, hr', rfl⟩
    rw [UInt32.le_iff_toNat_le] at hle ⊢
    omega

/-- **Merging is an operation on sets of records.** It gives each function that has a record once,
in ascending order, with exactly the tests of its records, the least of their distances and no
position selected. Neither reordering nor repeating records changes it. So the filter by distance
keeps a function exactly when one of its records is within the limit. -/
theorem merge_of_same_records (records : List CoverageRecord) :
    Merged records (merge records) ∧
    (∀ others, (∀ r, r ∈ others ↔ r ∈ records) → merge others = merge records) ∧
    ∀ (limit : UInt32) (code : Candidate → Function) (key : FunctionKey),
      key ∈ ((merge records).filter fun c =>
          !(FunctionFilter.maxDistance limit).skips c (code c)).map function ↔
        ∃ r ∈ records, r.function = key ∧ r.distance ≤ limit := by
  have hmerged := merged_merge records
  refine ⟨hmerged, fun others hsame => merge_eq_of_mem_iff hsame, fun limit code key => ?_⟩
  -- A candidate is kept if it is not too far away.
  have hkept : ∀ c : Candidate,
      (!(FunctionFilter.maxDistance limit).skips c (code c)) = true ↔ c.distance ≤ limit := by
    intro c
    rw [FunctionFilter.maxDistance, Bool.not_eq_true', decide_eq_false_iff_not, UInt32.not_lt]
  simp only [List.mem_map, List.mem_filter, hkept]
  constructor
  · rintro ⟨c, ⟨hc, hle⟩, rfl⟩
    exact ((hmerged.sums c hc).distance_le_iff limit).mp hle
  · rintro ⟨r, hr, rfl, hle⟩
    obtain ⟨c, hc, hfunction⟩ := List.mem_map.mp ((hmerged.functions _).mpr ⟨r, hr, rfl⟩)
    exact ⟨c, ⟨hc, ((hmerged.sums c hc).distance_le_iff limit).mpr ⟨r, hr, hfunction.symm, hle⟩⟩,
      hfunction⟩

/-- `merge_of_same_records` for records that are turned around and come twice: the function that was
reached one call below a test is kept, and the other one is not. -/
theorem merge_of_same_records_example :
    (∀ r, r ∈ Example.reached.reverse ++ Example.reached ↔ r ∈ Example.reached) ∧
    merge (Example.reached.reverse ++ Example.reached) = merge Example.reached ∧
    ⟨0, "leaf"⟩ ∈ ((merge Example.reached).filter fun c =>
        !(FunctionFilter.maxDistance 1).skips c Example.blank).map function ∧
    ⟨0, "root"⟩ ∉ ((merge Example.reached).filter fun c =>
        !(FunctionFilter.maxDistance 1).skips c Example.blank).map function := by
  have hsame : ∀ r, r ∈ Example.reached.reverse ++ Example.reached ↔ r ∈ Example.reached := by
    intro r
    rw [List.mem_append, List.mem_reverse, or_self]
  obtain ⟨-, hmerge, hfilter⟩ := merge_of_same_records Example.reached
  refine ⟨hsame, hmerge _ hsame, ?_, ?_⟩
  · rw [hfilter 1 (fun _ => Example.blank)]
    exact ⟨_, List.mem_cons_self, rfl, by decide⟩
  · rw [hfilter 1 (fun _ => Example.blank)]
    decide

end

/-- The candidates are different functions. -/
theorem nodup_function_merge (records : List CoverageRecord) :
    ((merge records).map function).Nodup := by
  refine (merged_merge records).ascending.imp fun {a b} hlt heq => ?_
  subst heq
  exact FunctionKey.lt_irrefl a hlt

end Candidate

end MutationLab
