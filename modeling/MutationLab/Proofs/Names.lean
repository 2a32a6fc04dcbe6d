import Mathlib.Data.List.Basic
import MutationLab.Point

/-! # Derived names

The copies of a function carry names made from its own: one for the unmutated copy and one for
every point. A derived name is cut at its last dollar sign in only one way, because what stands
behind that sign has none. So a derived name belongs to a single function, and the unmutated copy
never shares its name with the copy of a point. -/

namespace MutationLab

/-! ## Texts with a separator -/

/-- Texts around a separator agree, or there is a text that stands behind the separator in one of
them and before it in the other. -/
theorem append_cons_eq_append_cons_iff {separator : α} {as bs ss ts : List α} :
    as ++ separator :: ss = bs ++ separator :: ts ↔
      (as = bs ∧ ss = ts) ∨
      (∃ rest, bs = as ++ separator :: rest ∧ ss = rest ++ separator :: ts) ∨
      ∃ rest, as = bs ++ separator :: rest ∧ ts = rest ++ separator :: ss := by
  constructor
  · intro h
    -- One front begins with the other, and `mid` is what it has more.
    obtain ⟨mid, hbs, hmid⟩ | ⟨mid, has, hmid⟩ := List.append_eq_append_iff.mp h
    · cases mid with
      | nil =>
        rw [List.nil_append, List.cons.injEq] at hmid
        rw [List.append_nil] at hbs
        exact .inl ⟨hbs.symm, hmid.2⟩
      | cons first rest =>
        rw [List.cons_append, List.cons.injEq] at hmid
        obtain ⟨rfl, hss⟩ := hmid
        exact .inr (.inl ⟨rest, hbs, hss⟩)
    · cases mid with
      | nil =>
        rw [List.nil_append, List.cons.injEq] at hmid
        rw [List.append_nil] at has
        exact .inl ⟨has, hmid.2.symm⟩
      | cons first rest =>
        rw [List.cons_append, List.cons.injEq] at hmid
        obtain ⟨rfl, hts⟩ := hmid
        exact .inr (.inr ⟨rest, has, hts⟩)
  · rintro (⟨rfl, rfl⟩ | ⟨rest, rfl, rfl⟩ | ⟨rest, rfl, rfl⟩)
    · rfl
    · rw [List.append_assoc, List.cons_append]
    · rw [List.append_assoc, List.cons_append]

/-- A list is cut at the first occurrence of a separator in only one way. -/
theorem append_cons_inj_of_notMem_left {separator : α} {as bs ss ts : List α}
    (ha : separator ∉ as) (hb : separator ∉ bs)
    (h : as ++ separator :: ss = bs ++ separator :: ts) : as = bs ∧ ss = ts := by
  obtain heq | ⟨rest, rfl, -⟩ | ⟨rest, rfl, -⟩ := append_cons_eq_append_cons_iff.mp h
  · exact heq
  · exact absurd (List.mem_append_right _ List.mem_cons_self) hb
  · exact absurd (List.mem_append_right _ List.mem_cons_self) ha

/-- A list is cut at the last occurrence of a separator in only one way. -/
theorem append_cons_inj_of_notMem_right {separator : α} {as bs ss ts : List α}
    (hs : separator ∉ ss) (ht : separator ∉ ts)
    (h : as ++ separator :: ss = bs ++ separator :: ts) : as = bs ∧ ss = ts := by
  obtain heq | ⟨rest, -, rfl⟩ | ⟨rest, -, rfl⟩ := append_cons_eq_append_cons_iff.mp h
  · exact heq
  · exact absurd (List.mem_append_right _ List.mem_cons_self) hs
  · exact absurd (List.mem_append_right _ List.mem_cons_self) ht

/-! ## Parts of texts -/

/-- The characters of two texts with a colon between them. -/
theorem toList_joined (a b : String) : s!"{a}:{b}".toList = a.toList ++ ':' :: b.toList := by
  simp [toString]

/-- A colon is no digit. -/
theorem colon_notMem_toDigits (n : Nat) : ':' ∉ Nat.toDigits 10 n := by
  intro h
  exact absurd (Nat.isDigit_of_mem_toDigits (by decide) (by decide) h) (by decide)

/-- Digits tell numbers apart. -/
theorem toDigits_injective {m n : Nat} (h : Nat.toDigits 10 m = Nat.toDigits 10 n) : m = n := by
  have hvalue := congrArg (fun digits => Nat.ofDigitChars 10 digits 0) h
  simpa using hvalue

/-! ## Names of copies -/

/-- The characters of the name of the unmutated copy. -/
theorem toList_pristineName (name : String) :
    (pristineName name).toList = name.toList ++ '$' :: "original".toList := by
  simp [pristineName, toString]

namespace Point

/-- The characters of an id. -/
theorem toList_id (p : Point) :
    p.id.toList = p.operator.id.toList ++ ':' :: (p.moduleName.toList ++
      ':' :: (p.function.toList ++ ':' :: Nat.toDigits 10 p.instruction)) := by
  simp [id, toString]

/-- The characters of the name of a mutant's copy. -/
theorem toList_cloneName (p : Point) :
    p.cloneName.toList = (p.function.toList ++ "$mut".toList) ++ '$' :: p.id.toList.map plain := by
  simp [cloneName, toString]

/-- No character of an id is taken over as a dollar sign. -/
theorem plain_ne_dollar (c : Char) : plain c ≠ '$' := by
  unfold plain
  split
  · rename_i halnum
    rintro rfl
    exact absurd halnum (by decide)
  · decide

theorem dollar_notMem_map_plain (cs : List Char) : '$' ∉ cs.map plain := by
  rw [List.mem_map]
  rintro ⟨c, -, hc⟩
  exact plain_ne_dollar c hc

/-- The separators of an id become underscores. -/
theorem underscore_mem_map_plain (p : Point) : '_' ∈ p.id.toList.map plain := by
  rw [toList_id, List.map_append, List.map_cons]
  exact List.mem_append_right _ (by simp [plain])

/-- Copies of one name are copies of one function. -/
theorem function_eq_of_cloneName_eq {p q : Point} (h : p.cloneName = q.cloneName) :
    p.function = q.function := by
  have hlist := congrArg String.toList h
  rw [toList_cloneName, toList_cloneName] at hlist
  obtain ⟨hfront, -⟩ := append_cons_inj_of_notMem_right (dollar_notMem_map_plain _)
    (dollar_notMem_map_plain _) hlist
  exact String.toList_inj.mp (List.append_cancel_right hfront)

/-- Points on one function with one id have copies of one name. -/
theorem cloneName_eq {p q : Point} (hfunction : p.function = q.function) (hid : p.id = q.id) :
    p.cloneName = q.cloneName := by
  rw [cloneName, cloneName, hfunction, hid]

/-- The copy of a mutant never has the name of an unmutated copy. -/
theorem cloneName_ne_pristineName (p : Point) (name : String) :
    p.cloneName ≠ pristineName name := by
  intro h
  have hlist := congrArg String.toList h
  rw [toList_cloneName, toList_pristineName] at hlist
  -- Behind the last dollar sign, the one name has an underscore and the other has none.
  obtain ⟨-, hback⟩ := append_cons_inj_of_notMem_right (dollar_notMem_map_plain _)
    (by decide) hlist
  exact absurd (hback ▸ underscore_mem_map_plain p) (by decide)

end Point

theorem pristineName_injective {a b : String} (h : pristineName a = pristineName b) : a = b := by
  have hlist := congrArg String.toList h
  rw [toList_pristineName, toList_pristineName] at hlist
  exact String.toList_inj.mp (List.append_cancel_right hlist)

/-- The names of the copies of a function for points: the unmutated copy, then one for each. -/
def derivedNames (name : String) (points : List Point) : List String :=
  pristineName name :: points.map Point.cloneName

@[simp] theorem mem_derivedNames {name derived : String} {points : List Point} :
    derived ∈ derivedNames name points ↔
      derived = pristineName name ∨ ∃ p ∈ points, p.cloneName = derived := by
  simp [derivedNames]

/-- A derived name belongs to one function. -/
theorem eq_of_mem_derivedNames {a b derived : String} {ps qs : List Point}
    (hps : ∀ p ∈ ps, p.function = a) (hqs : ∀ q ∈ qs, q.function = b)
    (ha : derived ∈ derivedNames a ps) (hb : derived ∈ derivedNames b qs) : a = b := by
  rw [mem_derivedNames] at ha hb
  obtain rfl | ⟨p, hp, rfl⟩ := ha
  · obtain h | ⟨q, -, h⟩ := hb
    · exact pristineName_injective h
    · exact absurd h (q.cloneName_ne_pristineName a)
  · obtain h | ⟨q, hq, h⟩ := hb
    · exact absurd h (p.cloneName_ne_pristineName b)
    · rw [← hps p hp, ← hqs q hq, Point.function_eq_of_cloneName_eq h]

end MutationLab
