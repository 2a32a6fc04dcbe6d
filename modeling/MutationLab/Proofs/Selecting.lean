import Mathlib.Data.List.Basic
import Mathlib.Data.List.Infix
import Mathlib.Data.List.Nodup
import MutationLab.Operator.Catalog
import MutationLab.Proofs.Success

/-! # Selected operators

Names are expanded to ids, of every id the first mention is kept (`Operator.firstMentions`), and the
ids are looked up in the catalog. A group has only ids of the catalog, so the first id that is
unknown is the first name that is. If there is none, the operators are those that the names stand
for, each once and in the order of first mention (`Operator.select_exact`). -/

namespace MutationLab

namespace Operator

/-! ## First mentions -/

section

variable [DecidableEq α] {xs ys : List α} {x : α}

theorem firstMentions_append_singleton (xs : List α) (x : α) :
    firstMentions (xs ++ [x]) =
      if x ∈ firstMentions xs then firstMentions xs else firstMentions xs ++ [x] := by
  rw [firstMentions, List.foldl_append]
  rfl

/-- What is mentioned is mentioned for the first time somewhere. -/
@[simp] theorem mem_firstMentions : x ∈ firstMentions xs ↔ x ∈ xs := by
  induction xs using List.reverseRecOn with
  | nil => rfl
  | append_singleton xs y ih =>
    rw [firstMentions_append_singleton]
    by_cases hy : y ∈ firstMentions xs
    · rw [if_pos hy, ih, List.mem_append, List.mem_singleton]
      refine ⟨.inl, ?_⟩
      rintro (hx | rfl)
      · exact hx
      · exact ih.mp hy
    · rw [if_neg hy, List.mem_append, List.mem_append, ih]

/-- Of elements that are mentioned twice only the first mention is kept. -/
theorem nodup_firstMentions (xs : List α) : (firstMentions xs).Nodup := by
  induction xs using List.reverseRecOn with
  | nil => exact List.nodup_nil
  | append_singleton xs y ih =>
    rw [firstMentions_append_singleton]
    by_cases hy : y ∈ firstMentions xs
    · rwa [if_pos hy]
    · rw [if_neg hy]
      refine List.nodup_append.mpr ⟨ih, List.nodup_singleton y, ?_⟩
      rintro z hz _ hmem rfl
      exact hy (List.mem_singleton.mp hmem ▸ hz)

/-- First mentions stand in the order in which they are made. -/
theorem pairwise_firstMentions (xs : List α) :
    (firstMentions xs).Pairwise fun x y => xs.idxOf x < xs.idxOf y := by
  induction xs using List.reverseRecOn with
  | nil => exact .nil
  | append_singleton xs y ih =>
    -- The last element does not change the places of those before it.
    have hplace : ∀ {z}, z ∈ firstMentions xs → (xs ++ [y]).idxOf z = xs.idxOf z := fun hz =>
      List.idxOf_append_of_mem (mem_firstMentions.mp hz)
    have hbefore : (firstMentions xs).Pairwise
        fun x z => (xs ++ [y]).idxOf x < (xs ++ [y]).idxOf z :=
      ih.imp_of_mem fun hx hz hlt => by rwa [hplace hx, hplace hz]
    rw [firstMentions_append_singleton]
    by_cases hy : y ∈ firstMentions xs
    · rwa [if_pos hy]
    · rw [if_neg hy]
      refine List.pairwise_append.mpr ⟨hbefore, List.pairwise_singleton _ y, ?_⟩
      intro z hz _ hmem
      obtain rfl := List.mem_singleton.mp hmem
      rw [hplace hz, List.idxOf_append_of_notMem (mt mem_firstMentions.mpr hy)]
      exact Nat.lt_add_right _ (List.idxOf_lt_length_iff.mpr (mem_firstMentions.mp hz))

/-- Further mentions come behind the first ones. -/
theorem firstMentions_prefix (xs ys : List α) : firstMentions xs <+: firstMentions (xs ++ ys) := by
  induction ys using List.reverseRecOn with
  | nil => rw [List.append_nil]
  | append_singleton ys y ih =>
    rw [← List.append_assoc, firstMentions_append_singleton]
    split
    · exact ih
    · exact ih.trans (List.prefix_append _ _)

/-- What is mentioned again changes nothing. -/
theorem firstMentions_append_of_subset (h : ys ⊆ xs) :
    firstMentions (xs ++ ys) = firstMentions xs := by
  induction ys using List.reverseRecOn with
  | nil => rw [List.append_nil]
  | append_singleton ys y ih =>
    obtain ⟨hys, hy⟩ := List.append_subset.mp h
    have hmem : y ∈ firstMentions xs := mem_firstMentions.mpr (hy List.mem_cons_self)
    rw [← List.append_assoc, firstMentions_append_singleton, ih hys, if_pos hmem]

/-- Elements that are mentioned once are all first mentions. -/
theorem firstMentions_of_nodup (h : xs.Nodup) : firstMentions xs = xs := by
  induction xs using List.reverseRecOn with
  | nil => rfl
  | append_singleton xs y ih =>
    rw [List.nodup_append] at h
    obtain ⟨hxs, -, hy⟩ := h
    have hnew : y ∉ firstMentions xs := fun hmem =>
      hy y (mem_firstMentions.mp hmem) y (List.mem_singleton.mpr rfl) rfl
    rw [firstMentions_append_singleton, if_neg hnew, ih hxs]

end

/-! ## Ids and names -/

/-- A name that can be selected: the id of an operator or the name of a group. -/
def IsKnown (name : String) : Prop :=
  (∃ operator ∈ catalog, operator.id = name) ∨ (group? name).isSome

/-- The ids that names stand for, one after the other. -/
def mentions (names : List String) : List String :=
  (if names.isEmpty then ["default"] else names).flatMap expand

theorem mentions_of_ne_nil {names : List String} (h : names ≠ []) :
    mentions names = names.flatMap expand := by
  rw [mentions, List.isEmpty_eq_false_iff.mpr h]
  rfl

theorem select_eq_ofIds (names : List String) :
    select names = ofIds (firstMentions (mentions names)) := rfl

/-- An id is found if it is in the catalog. -/
theorem isSome_byId?_iff {id : String} :
    (byId? id).isSome ↔ ∃ operator ∈ catalog, operator.id = id := by
  simp [byId?]

/-- Groups have only ids of the catalog. -/
theorem isSome_byId?_of_group? {name : String} {ids : List String} (h : group? name = some ids) :
    ∀ id ∈ ids, (byId? id).isSome := by
  unfold group? at h
  split at h
  case h_7 => exact nomatch h
  all_goals
    obtain rfl := Option.some.inj h
    decide +kernel

/-- No operator has the name of a group. -/
theorem expand_id {operator : Operator} (h : operator ∈ catalog) :
    expand operator.id = [operator.id] := by
  have hnone : ∀ operator ∈ catalog, group? operator.id = none := by decide +kernel
  rw [expand, hnone operator h, Option.getD_none]

/-- A name that is known stands for ids of the catalog. -/
theorem isSome_byId?_of_isKnown {name : String} (h : IsKnown name) :
    ∀ id ∈ expand name, (byId? id).isSome := by
  rw [expand]
  cases hgroup : group? name with
  | some ids => exact isSome_byId?_of_group? hgroup
  | none =>
    rw [IsKnown, hgroup, Option.isSome_none, Bool.false_eq_true, or_false] at h
    rw [Option.getD_none, List.forall_mem_singleton]
    exact isSome_byId?_iff.mpr h

/-- A name that is not known stands for itself, and is not found. -/
theorem expand_of_not_isKnown {name : String} (h : ¬ IsKnown name) :
    expand name = [name] ∧ byId? name = none := by
  rw [IsKnown, not_or, Option.not_isSome_iff_eq_none] at h
  refine ⟨by rw [expand, h.2, Option.getD_none], ?_⟩
  rw [← Option.not_isSome_iff_eq_none, isSome_byId?_iff]
  exact h.1

/-- The operators of ids are those of the catalog with these ids. -/
theorem ofIds_eq_ok {ids : List String} {operators : List Operator}
    (h : ofIds ids = .ok operators) :
    operators.map Operator.id = ids ∧ operators ⊆ catalog := by
  induction ids generalizing operators with
  | nil =>
    obtain rfl := Except.ok.inj h
    exact ⟨rfl, List.nil_subset _⟩
  | cons id ids ih =>
    rw [ofIds] at h
    cases hid : byId? id with
    | none =>
      rw [hid] at h
      exact nomatch h
    | some operator =>
      rw [hid] at h
      obtain ⟨others, hothers, rfl⟩ := map_eq_ok_iff.mp h
      obtain ⟨hids, hcatalog⟩ := ih hothers
      have hmem : operator ∈ catalog := List.mem_of_find?_eq_some hid
      have hsame := List.find?_some hid
      rw [decide_eq_true_eq] at hsame
      exact ⟨by rw [List.map_cons, hids, hsame], List.cons_subset.mpr ⟨hmem, hcatalog⟩⟩

/-- Ids of the catalog have operators. -/
theorem exists_ofIds_eq_ok {ids : List String} (h : ∀ id ∈ ids, (byId? id).isSome) :
    ∃ operators, ofIds ids = .ok operators := by
  induction ids with
  | nil => exact ⟨[], rfl⟩
  | cons id ids ih =>
    rw [List.forall_mem_cons] at h
    obtain ⟨operator, hid⟩ := Option.isSome_iff_exists.mp h.1
    obtain ⟨operators, hids⟩ := ih h.2
    exact ⟨operator :: operators, by rw [ofIds, hid, hids]; rfl⟩

/-- The first id that is not in the catalog is reported. -/
theorem ofIds_append_cons {before after : List String} {id : String}
    (hbefore : ∀ other ∈ before, (byId? other).isSome) (hid : byId? id = none) :
    ofIds (before ++ id :: after) = .error (.unknown id) := by
  induction before with
  | nil => rw [List.nil_append, ofIds, hid]
  | cons other before ih =>
    rw [List.forall_mem_cons] at hbefore
    obtain ⟨operator, hother⟩ := Option.isSome_iff_exists.mp hbefore.1
    rw [List.cons_append, ofIds, hother, ih hbefore.2]
    rfl

/-- **Selected operators** are operators of the catalog, each of them once. -/
theorem select_eq_ok {names : List String} {operators : List Operator}
    (h : select names = .ok operators) : operators.Nodup ∧ operators ⊆ catalog := by
  obtain ⟨hids, hcatalog⟩ := ofIds_eq_ok h
  refine ⟨List.Nodup.of_map Operator.id ?_, hcatalog⟩
  rw [hids]
  exact nodup_firstMentions _

/-! ## Selections -/

/-- Names that are all known stand for ids of the catalog. -/
theorem isSome_byId?_of_mem_mentions {names : List String} (h : ∀ name ∈ names, IsKnown name) :
    ∀ id ∈ mentions names, (byId? id).isSome := by
  intro id hid
  obtain ⟨name, hname, hid⟩ := List.mem_flatMap.mp hid
  refine isSome_byId?_of_isKnown ?_ id hid
  cases names with
  | nil =>
    obtain rfl := List.mem_singleton.mp hname
    exact .inr rfl
  | cons first others => exact h name hname

/-- Names that are all known are selected. -/
theorem exists_select_eq_ok {names : List String} (h : ∀ name ∈ names, IsKnown name) :
    ∃ operators, select names = .ok operators := by
  rw [select_eq_ofIds]
  exact exists_ofIds_eq_ok fun id hid =>
    isSome_byId?_of_mem_mentions h id (mem_firstMentions.mp hid)

/-- **The first name that is not known is reported.** -/
theorem select_append_cons {before after : List String} {name : String}
    (hbefore : ∀ other ∈ before, IsKnown other) (hname : ¬ IsKnown name) :
    select (before ++ name :: after) = .error (.unknown name) := by
  obtain ⟨hexpand, hunknown⟩ := expand_of_not_isKnown hname
  -- The ids before it are all found, so it is not one of them.
  have hfound : ∀ id ∈ before.flatMap expand, (byId? id).isSome := by
    intro id hid
    obtain ⟨other, hother, hid⟩ := List.mem_flatMap.mp hid
    exact isSome_byId?_of_isKnown (hbefore other hother) id hid
  have hnew : name ∉ firstMentions (before.flatMap expand) := by
    intro hmem
    have hsome := hfound name (mem_firstMentions.mp hmem)
    rw [hunknown] at hsome
    exact Bool.false_ne_true hsome
  have hmentions : mentions (before ++ name :: after) =
      before.flatMap expand ++ [name] ++ after.flatMap expand := by
    rw [mentions_of_ne_nil (by simp), List.flatMap_append, List.flatMap_cons, hexpand,
      List.append_assoc]
  obtain ⟨rest, hrest⟩ :=
    firstMentions_prefix (before.flatMap expand ++ [name]) (after.flatMap expand)
  rw [select_eq_ofIds, hmentions, ← hrest, firstMentions_append_singleton, if_neg hnew,
    List.append_assoc, List.singleton_append]
  exact ofIds_append_cons (fun id hid => hfound id (mem_firstMentions.mp hid)) hunknown

/-- Among names that are not all known there is a first one that is not. -/
theorem exists_first_unknown {names : List String} (h : ¬ ∀ name ∈ names, IsKnown name) :
    ∃ before name after, names = before ++ name :: after ∧ (∀ other ∈ before, IsKnown other) ∧
      ¬ IsKnown name := by
  induction names with
  | nil => exact absurd (fun _ hname => nomatch hname) h
  | cons first names ih =>
    by_cases hfirst : IsKnown first
    · have hothers : ¬ ∀ name ∈ names, IsKnown name := fun hall =>
        h (List.forall_mem_cons.mpr ⟨hfirst, hall⟩)
      obtain ⟨before, name, after, rfl, hbefore, hname⟩ := ih hothers
      exact ⟨first :: before, name, after, rfl, List.forall_mem_cons.mpr ⟨hfirst, hbefore⟩, hname⟩
    · exact ⟨[], first, names, rfl, nofun, hfirst⟩

/-- Operators that names stand for: each of them once, in the order of first mention. -/
structure Selects (names : List String) (operators : List Operator) : Prop where
  subset : operators ⊆ catalog
  mem_iff : ∀ id, id ∈ operators.map Operator.id ↔ id ∈ mentions names
  nodup : (operators.map Operator.id).Nodup
  ordered : (operators.map Operator.id).Pairwise fun id later =>
    (mentions names).idxOf id < (mentions names).idxOf later

/-- What is selected is what the names stand for. -/
theorem selects_of_select {names : List String} {operators : List Operator}
    (h : select names = .ok operators) : Selects names operators := by
  obtain ⟨hids, hcatalog⟩ := ofIds_eq_ok h
  refine ⟨hcatalog, ?_, ?_, ?_⟩ <;> rw [hids]
  · exact fun id => mem_firstMentions
  · exact nodup_firstMentions _
  · exact pairwise_firstMentions _

/-- Ids of the catalog stand for themselves. -/
theorem mentions_map_id {operators : List Operator} (hne : operators ≠ [])
    (h : operators ⊆ catalog) :
    mentions (operators.map Operator.id) = operators.map Operator.id := by
  rw [mentions_of_ne_nil (by simpa using hne), List.flatMap_map]
  calc (operators.flatMap fun operator => expand operator.id)
      = operators.flatMap fun operator => [operator.id] :=
        List.flatMap_congr fun operator hoperator => expand_id (h hoperator)
    _ = operators.map Operator.id := by rw [← List.map_eq_flatMap]

/-- Names stand for something. -/
theorem mentions_ne_nil (names : List String) : mentions names ≠ [] := by
  have hexpand : ∀ name, expand name ≠ [] := by
    intro name
    unfold expand group?
    split <;> exact nofun
  rw [mentions]
  cases names with
  | nil => exact fun h => nomatch h
  | cons name names =>
    intro h
    rw [List.isEmpty_cons, if_neg Bool.false_ne_true, List.flatMap_cons,
      List.append_eq_nil_iff] at h
    exact hexpand name h.1

/-- **A selection selects itself again.** -/
theorem select_map_id {names : List String} {operators : List Operator}
    (h : select names = .ok operators) : select (operators.map Operator.id) = .ok operators := by
  rw [select_eq_ofIds] at h
  obtain ⟨hids, hcatalog⟩ := ofIds_eq_ok h
  have hne : operators ≠ [] := by
    rintro rfl
    obtain ⟨id, hid⟩ := List.exists_mem_of_ne_nil _ (mentions_ne_nil names)
    rw [← mem_firstMentions, ← hids] at hid
    exact nomatch hid
  rw [select_eq_ofIds, mentions_map_id hne hcatalog, hids,
    firstMentions_of_nodup (nodup_firstMentions _)]
  exact h

/-- Names that add nothing may be added. -/
theorem select_append {names more : List String} (hne : names ≠ [])
    (h : ∀ name ∈ more, expand name ⊆ mentions names) :
    select (names ++ more) = select names := by
  have hne' : names ++ more ≠ [] := fun hnil => hne (List.append_eq_nil_iff.mp hnil).1
  have hsubset : more.flatMap expand ⊆ names.flatMap expand := by
    intro id hid
    obtain ⟨name, hname, hid⟩ := List.mem_flatMap.mp hid
    have hid := h name hname hid
    rwa [mentions_of_ne_nil hne] at hid
  rw [select_eq_ofIds, select_eq_ofIds, mentions_of_ne_nil hne', mentions_of_ne_nil hne,
    List.flatMap_append, firstMentions_append_of_subset hsubset]

/-- **What is selected by names.** Any list of texts is refused if one of them is neither the id of
an operator nor the name of a group, and the first such text is reported. Otherwise the operators
are those that the names stand for, and those of the default group for no name at all, each once and
in the order of first mention. So no operator is selected twice, the ids of a selection select it
again, and to names, if there are any, others may be added that stand for nothing new. -/
theorem select_exact (names : List String) :
    ((∃ e, select names = .error e) ↔ ∃ name ∈ names, ¬ IsKnown name) ∧
    (∀ name, select names = .error (.unknown name) ↔
      ∃ before after, names = before ++ name :: after ∧ (∀ other ∈ before, IsKnown other) ∧
        ¬ IsKnown name) ∧
    (∀ operators, select names = .ok operators →
      Selects names operators ∧ operators.Nodup ∧
      select (operators.map Operator.id) = .ok operators) ∧
    ∀ more, names ≠ [] → (∀ name ∈ more, expand name ⊆ mentions names) →
      select (names ++ more) = select names := by
  refine ⟨⟨?_, ?_⟩, fun name => ⟨?_, ?_⟩, fun operators h => ?_, fun more => select_append⟩
  · rintro ⟨e, herror⟩
    by_contra hall
    have hall' : ∀ name ∈ names, IsKnown name := by simpa using hall
    obtain ⟨operators, hok⟩ := exists_select_eq_ok hall'
    exact nomatch hok.symm.trans herror
  · rintro ⟨name, hname, hunknown⟩
    obtain ⟨before, first, after, rfl, hbefore, hfirst⟩ :=
      exists_first_unknown fun hall => hunknown (hall name hname)
    exact ⟨_, select_append_cons hbefore hfirst⟩
  · intro herror
    have hnot : ¬ ∀ name ∈ names, IsKnown name := by
      intro hall
      obtain ⟨operators, hok⟩ := exists_select_eq_ok hall
      exact nomatch hok.symm.trans herror
    obtain ⟨before, first, after, rfl, hbefore, hfirst⟩ := exists_first_unknown hnot
    rw [select_append_cons hbefore hfirst, Except.error.injEq, SelectionError.unknown.injEq]
      at herror
    exact herror ▸ ⟨before, after, rfl, hbefore, hfirst⟩
  · rintro ⟨before, after, rfl, hbefore, hname⟩
    exact select_append_cons hbefore hname
  · exact ⟨selects_of_select h, (select_eq_ok h).1, select_map_id h⟩

/-- An operator, the group that has it, and names that the two cover already. Behind a name that is
unknown another one is not reported. -/
theorem select_exact_example :
    ∃ operators, select ["rem_to_div", "arithmetic"] = .ok operators ∧
      operators.map Operator.id =
        ["rem_to_div", "add_to_sub", "sub_to_add", "mul_to_div", "div_to_mul"] ∧
      select (["rem_to_div", "arithmetic"] ++ ["sub_to_add", "arithmetic"]) = .ok operators ∧
      select (operators.map Operator.id) = .ok operators ∧
      select ["calls", "bogus", "nonsense"] = .error (.unknown "bogus") := by
  have hids : (select ["rem_to_div", "arithmetic"]).toOption.map (List.map Operator.id) =
      some ["rem_to_div", "add_to_sub", "sub_to_add", "mul_to_div", "div_to_mul"] := by
    decide +kernel
  obtain ⟨operators, hoperators, hids⟩ := Option.map_eq_some_iff.mp hids
  have hok := toOption_eq_some_iff.mp hoperators
  obtain ⟨-, -, hselected, hmore⟩ := select_exact ["rem_to_div", "arithmetic"]
  obtain ⟨-, -, hagain⟩ := hselected operators hok
  have hcovered : ∀ name ∈ ["sub_to_add", "arithmetic"],
      expand name ⊆ mentions ["rem_to_div", "arithmetic"] := by decide +kernel
  refine ⟨operators, hok, hids, (hmore _ (by decide) hcovered).trans hok, hagain, ?_⟩
  obtain ⟨-, hunknown, -⟩ := select_exact ["calls", "bogus", "nonsense"]
  refine (hunknown "bogus").mpr ⟨["calls"], ["nonsense"], rfl, ?_, ?_⟩
  · exact List.forall_mem_singleton.mpr (.inr rfl)
  · unfold IsKnown
    decide +kernel

end Operator

end MutationLab
