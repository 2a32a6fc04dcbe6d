import Mathlib.Data.List.Nodup
import MutationLab.Probes

/-! # Functions and their probes

Every function of a program has a probe. Where the functions of each module have distinct names and
there are no more functions than numbers for probes, a probe belongs to one function only
(`Probes.probe?_eq_some_iff`). -/

namespace MutationLab

namespace Probes

/-- The keys are those of the functions of modules. -/
theorem mem_keysFrom {first : ModuleId} {ms : List Module} {key : FunctionKey} :
    key ∈ keysFrom first ms ↔
      ∃ id m, ms[id]? = some m ∧ ∃ f ∈ m.functions, ⟨first + id, f.name⟩ = key := by
  induction ms generalizing first with
  | nil => simp [keysFrom]
  | cons n ms ih =>
    rw [keysFrom, List.mem_append, ih, keys, List.mem_map]
    constructor
    · rintro (⟨f, hf, rfl⟩ | ⟨id, m, hm, f, hf, rfl⟩)
      · exact ⟨0, n, rfl, f, hf, rfl⟩
      · exact ⟨id + 1, m, hm, f, hf, by rw [Nat.add_assoc, Nat.add_comm 1 id]⟩
    · rintro ⟨id, m, hm, f, hf, rfl⟩
      cases id with
      | zero =>
        obtain rfl := Option.some.inj hm
        exact .inl ⟨f, hf, rfl⟩
      | succ id => exact .inr ⟨id, m, hm, f, hf, by rw [Nat.add_assoc, Nat.add_comm 1 id]⟩

/-- Where the functions of each module have distinct names, all keys are distinct. -/
theorem nodup_keysFrom {ms : List Module} (h : ∀ m ∈ ms, m.functionNames.Nodup) (first : ModuleId) :
    (keysFrom first ms).Nodup := by
  induction ms generalizing first with
  | nil => exact List.nodup_nil
  | cons m ms ih =>
    rw [List.forall_mem_cons] at h
    have hnames : (m.functions.map Function.name).Nodup := h.1
    refine List.nodup_append.mpr ⟨?_, ih h.2 _, ?_⟩
    · refine List.Nodup.of_map FunctionKey.name ?_
      rw [keys, List.map_map]
      exact hnames
    · rintro key hkey _ hother rfl
      obtain ⟨f, -, rfl⟩ := List.mem_map.mp hkey
      obtain ⟨id, n, -, g, -, heq⟩ := mem_keysFrom.mp hother
      have hmodule : first + 1 + id = first := congrArg FunctionKey.module heq
      have hlt : first < first + 1 + id :=
        Nat.lt_of_lt_of_le (Nat.lt_succ_self _) (Nat.le_add_right ..)
      exact absurd hmodule.symm (Nat.ne_of_lt hlt)

/-- A key has a position when it occurs. -/
theorem isSome_lastFrom {key : FunctionKey} {first : Nat} {keys : List FunctionKey} :
    (lastFrom key first keys).isSome ↔ key ∈ keys := by
  induction keys generalizing first with
  | nil => simp [lastFrom]
  | cons k ks ih =>
    rw [lastFrom, Option.isSome_or, Bool.or_eq_true, ih, List.mem_cons, or_comm]
    refine or_congr ?_ Iff.rfl
    by_cases h : k = key
    · rw [if_pos h]
      exact iff_of_true rfl h.symm
    · rw [if_neg h]
      exact iff_of_false Bool.false_ne_true (Ne.symm h)

/-- The position of a key is one where it stands. -/
theorem of_lastFrom_eq_some {key : FunctionKey} {first position : Nat} {keys : List FunctionKey}
    (h : lastFrom key first keys = some position) :
    ∃ offset, keys[offset]? = some key ∧ first + offset = position := by
  induction keys generalizing first with
  | nil => exact nomatch h
  | cons k ks ih =>
    rw [lastFrom, Option.or_eq_some_iff] at h
    obtain h | ⟨-, h⟩ := h
    · obtain ⟨offset, hoffset, rfl⟩ := ih h
      exact ⟨offset + 1, hoffset, by omega⟩
    · by_cases hkey : k = key
      · rw [if_pos hkey, Option.some.injEq] at h
        exact ⟨0, congrArg some hkey, by omega⟩
      · rw [if_neg hkey] at h
        exact nomatch h

/-- The functions of modules have probes. -/
theorem exists_probe?_eq_some {ms : List Module} {id : ModuleId} {m : Module}
    (hm : ms[id]? = some m) {f : Function} (hf : f ∈ m.functions) :
    ∃ probe, (ofModules ms).probe? ⟨id, f.name⟩ = some probe := by
  have hmem : ⟨id, f.name⟩ ∈ keysFrom 0 ms :=
    mem_keysFrom.mpr ⟨id, m, hm, f, hf, by rw [Nat.zero_add]⟩
  obtain ⟨position, hposition⟩ : ∃ position, lastFrom ⟨id, f.name⟩ 0 (keysFrom 0 ms) =
    some position := Option.isSome_iff_exists.mp (isSome_lastFrom.mpr hmem)
  refine ⟨UInt32.ofNat position, ?_⟩
  rw [probe?, ofModules, hposition]
  rfl

/-- The function of a probe is a function of the program. -/
theorem of_function?_eq_some {ms : List Module} {probe : UInt32} {key : FunctionKey}
    (h : (ofModules ms).function? probe = some key) :
    ∃ m, ms[key.module]? = some m ∧ ∃ f ∈ m.functions, f.name = key.name := by
  obtain ⟨id, m, hm, f, hf, rfl⟩ := mem_keysFrom.mp (List.mem_of_getElem? h)
  rw [Nat.zero_add]
  exact ⟨m, hm, f, hf, rfl⟩

/-- Every function of the program has a probe that is its own, if there are enough numbers. -/
theorem exists_function?_eq_some {ms : List Module} (hsize : (ofModules ms).size ≤ UInt32.size)
    {id : ModuleId} {m : Module} (hm : ms[id]? = some m) {f : Function} (hf : f ∈ m.functions) :
    ∃ probe, (ofModules ms).function? probe = some ⟨id, f.name⟩ := by
  have hmem : ⟨id, f.name⟩ ∈ keysFrom 0 ms :=
    mem_keysFrom.mpr ⟨id, m, hm, f, hf, by rw [Nat.zero_add]⟩
  obtain ⟨position, hlt, hposition⟩ := List.getElem_of_mem hmem
  refine ⟨UInt32.ofNat position, ?_⟩
  rw [function?, UInt32.toNat_ofNat_of_lt' (Nat.lt_of_lt_of_le hlt hsize), ofModules,
    List.getElem?_eq_getElem hlt, hposition]

/-- **A probe belongs to one function**, where keys are distinct and not too many for the numbers of
probes. -/
theorem probe?_eq_some_iff {p : Probes} (hnodup : p.functions.Nodup) (hsize : p.size ≤ UInt32.size)
    {key : FunctionKey} {probe : UInt32} :
    p.probe? key = some probe ↔ p.function? probe = some key := by
  rw [probe?, function?, Option.map_eq_some_iff]
  constructor
  · rintro ⟨position, hposition, rfl⟩
    obtain ⟨offset, hoffset, rfl⟩ := of_lastFrom_eq_some hposition
    rw [Nat.zero_add]
    have hlt : offset < p.functions.length := (List.getElem?_eq_some_iff.mp hoffset).1
    rw [UInt32.toNat_ofNat_of_lt' (Nat.lt_of_lt_of_le hlt hsize)]
    exact hoffset
  · intro hkey
    have hsome := Option.isSome_iff_exists.mp
      (isSome_lastFrom.mpr (List.mem_of_getElem? hkey) : (lastFrom key 0 p.functions).isSome)
    obtain ⟨position, hposition⟩ := hsome
    refine ⟨position, hposition, ?_⟩
    -- Keys are distinct, so the last occurrence is the one that the probe names.
    obtain ⟨offset, hoffset, rfl⟩ := of_lastFrom_eq_some hposition
    have hsame : offset = probe.toNat := by
      obtain ⟨hlt, hget⟩ := List.getElem?_eq_some_iff.mp hoffset
      obtain ⟨hlt', hget'⟩ := List.getElem?_eq_some_iff.mp hkey
      exact (hnodup.getElem_inj_iff).mp (hget.trans hget'.symm)
    rw [Nat.zero_add, hsame, UInt32.ofNat_toNat]

end Probes

end MutationLab
