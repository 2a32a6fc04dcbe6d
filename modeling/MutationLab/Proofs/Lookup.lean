import Mathlib.Data.List.Nodup
import MutationLab.Code.Module

/-! # Functions by name

Looking up, removing and changing a function by its name means the first function of that name.
In a module whose functions have distinct names there is only one, so looking up is membership,
removing is filtering and changing is mapping. In any module, functions of other names are found as
before. -/

namespace MutationLab

namespace Module

/-- A module defines the names of its functions. -/
theorem defines_iff {m : Module} {name : String} :
    m.defines name = true ↔ name ∈ m.functionNames := by
  simp [defines, functionNames]

/-- What is found is a function of the module with the name. -/
theorem mem_of_function?_eq_some {m : Module} {name : String} {f : Function}
    (h : m.function? name = some f) : f ∈ m.functions ∧ f.name = name :=
  ⟨List.mem_of_find?_eq_some h, by simpa using List.find?_some h⟩

/-- A function is found under a name that some function has. -/
theorem exists_function?_eq_some {m : Module} {name : String} (h : name ∈ m.functionNames) :
    ∃ f, m.function? name = some f := by
  rw [← defines_iff, ← isSome_function?] at h
  exact Option.isSome_iff_exists.mp h

/-- Functions of one name are one function, where names are distinct. -/
theorem eq_of_name_eq {fs : List Function} (hnames : (fs.map Function.name).Nodup)
    {f g : Function} (hf : f ∈ fs) (hg : g ∈ fs) (h : f.name = g.name) : f = g :=
  List.inj_on_of_nodup_map hnames hf hg h

/-- Looking up is membership, where names are distinct. -/
theorem function?_eq_some_iff {m : Module} (hnames : m.functionNames.Nodup) {name : String}
    {f : Function} : m.function? name = some f ↔ f ∈ m.functions ∧ f.name = name := by
  constructor
  · exact mem_of_function?_eq_some
  · rintro ⟨hf, rfl⟩
    obtain ⟨g, hg⟩ := exists_function?_eq_some (List.mem_map_of_mem hf : f.name ∈ m.functionNames)
    obtain ⟨hmem, hname⟩ := mem_of_function?_eq_some hg
    rw [hg, eq_of_name_eq hnames hmem hf hname]

/-- Removing the first function of a name keeps those of other names, where names are distinct. -/
theorem functions_remove {m : Module} (hnames : m.functionNames.Nodup) (name : String) :
    (m.remove name).functions = m.functions.filter fun f => f.name ≠ name := by
  obtain ⟨_, fs⟩ := m
  rw [functionNames] at hnames
  rw [remove]
  induction fs with
  | nil => rfl
  | cons f fs ih =>
    rw [List.map_cons, List.nodup_cons] at hnames
    dsimp only at ih ⊢
    rw [List.eraseP_cons]
    by_cases h : f.name = name
    · have hrest : ∀ g ∈ fs, g.name ≠ name := fun g hg hgname =>
        hnames.1 (by rw [h, ← hgname]; exact List.mem_map_of_mem hg)
      rw [List.filter_cons_of_neg (by simpa using h)]
      simp only [h, decide_true, cond_true]
      rw [List.filter_eq_self.mpr fun g hg => by simpa using hrest g hg]
    · rw [List.filter_cons_of_pos (by simpa using h)]
      simp only [h, decide_false, cond_false]
      rw [ih hnames.2]

/-- Changing the first function of a name changes the one of that name, where names are
distinct. -/
theorem modifyFirst_eq_map {fs : List Function} (hnames : (fs.map Function.name).Nodup)
    (name : String) (change : Function → Function) :
    modifyFirst name change fs = fs.map fun f => if f.name = name then change f else f := by
  induction fs with
  | nil => rfl
  | cons f fs ih =>
    rw [List.map_cons, List.nodup_cons] at hnames
    rw [modifyFirst, List.map_cons]
    by_cases h : f.name = name
    · have hrest : ∀ g ∈ fs, (if g.name = name then change g else g) = g := fun g hg =>
        if_neg fun hgname => hnames.1 (by rw [h, ← hgname]; exact List.mem_map_of_mem hg)
      rw [if_pos h, if_pos h, List.map_congr_left hrest, List.map_id']
    · rw [if_neg h, if_neg h, ih hnames.2]

/-! ## What is found in a changed module -/

/-- A function that is found is still found when functions are added behind it. -/
theorem function?_append_of_eq_some {m : Module} {fs : List Function} {name : String} {f : Function}
    (h : m.function? name = some f) : (m.append fs).function? name = some f := by
  unfold function? at h ⊢
  rw [append, List.find?_append, h]
  rfl

/-- A function is found when it is added under a free name. -/
theorem function?_append_of_mem {m : Module} {fs : List Function} {f : Function}
    (hfree : f.name ∉ m.functionNames) (hnodup : (fs.map Function.name).Nodup) (hf : f ∈ fs) :
    (m.append fs).function? f.name = some f := by
  have hbefore : m.functions.find? (·.name = f.name) = none := by
    rw [← Option.not_isSome_iff_eq_none]
    change ¬ (m.function? f.name).isSome
    rwa [isSome_function?, defines_iff]
  have hnodup' : ({ m with functions := fs } : Module).functionNames.Nodup := hnodup
  unfold function?
  rw [append, List.find?_append, hbefore]
  exact (function?_eq_some_iff hnodup').mpr ⟨hf, rfl⟩

/-- Removing a function of another name does not change what is found. -/
theorem function?_remove_of_ne {m : Module} {name other : String} (h : name ≠ other) :
    (m.remove other).function? name = m.function? name := by
  obtain ⟨_, fs⟩ := m
  unfold function? remove
  dsimp only
  induction fs with
  | nil => rfl
  | cons f fs ih =>
    rw [List.eraseP_cons]
    by_cases hother : f.name = other
    · have hname : f.name ≠ name := fun heq => h (heq.symm.trans hother)
      simp [hother, h.symm]
    · simp [hother, List.find?_cons, ih]

/-- Changing a function of another name does not change what is found. -/
theorem function?_modify_of_ne {m : Module} {name other : String} {change : Function → Function}
    (hchange : ∀ f, (change f).name = f.name) (h : name ≠ other) :
    (m.modify other change).function? name = m.function? name := by
  obtain ⟨_, fs⟩ := m
  unfold function? modify
  dsimp only
  induction fs with
  | nil => rfl
  | cons f fs ih =>
    rw [modifyFirst]
    by_cases hother : f.name = other
    · have hname : f.name ≠ name := fun heq => h (heq.symm.trans hother)
      rw [if_pos hother]
      simp [hchange, hname]
    · rw [if_neg hother, List.find?_cons, List.find?_cons, ih]

/-- A function that is changed is found as it has become. -/
theorem function?_modify {m : Module} {name : String} {change : Function → Function}
    (hchange : ∀ f, (change f).name = f.name) :
    (m.modify name change).function? name = (m.function? name).map change := by
  obtain ⟨_, fs⟩ := m
  unfold function? modify
  dsimp only
  induction fs with
  | nil => rfl
  | cons f fs ih =>
    rw [modifyFirst]
    by_cases hname : f.name = name
    · rw [if_pos hname]
      simp [hchange, hname]
    · rw [if_neg hname]
      simpa [List.find?_cons, hname] using ih

end Module

end MutationLab
