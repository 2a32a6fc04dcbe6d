import Mathlib.Data.List.Infix
import MutationLab.Proofs.Json.Printed
import MutationLab.Proofs.Scoring

/-! # What a report says

The counts of a run are taken from the statuses of its results, the entries of the document from
their fields, and the lines of the page from a filter. All of them agree where no status is invalid:
the counts add up (`Summary.total_eq`), the text of the document is read back with one entry for
every result (`Report.read_render_json`, `Report.mutants_toJson`), and the page has a chapter about
the mutants that survived if and only if some are counted
(`Report.append_survived_isPrefix_iff`). -/

namespace MutationLab

open Json (Document)

/-! ## Counts -/

/-- Whether a mutant was run and not detected. -/
def MutationResult.survives (m : MutationResult) : Bool := m.result.status = .passed

namespace Summary

/-- What every result of a kind raises by one, is raised by the number of these results. -/
theorem view_foldl_count (view : Summary → Nat) {kind : MutationResult → Bool}
    (h : ∀ s m, view (count s m) = view s + if kind m then 1 else 0)
    (results : List MutationResult) (s : Summary) :
    view (results.foldl count s) = view s + results.countP kind := by
  induction results generalizing s with
  | nil => rfl
  | cons m results ih =>
    rw [List.foldl_cons, ih, h, List.countP_cons, Nat.add_assoc, Nat.add_comm (ite ..)]

/-- So is what starts at zero. -/
theorem view_ofResult (view : Summary → Nat) {kind : MutationResult → Bool}
    (h : ∀ s m, view (count s m) = view s + if kind m then 1 else 0) {r : PipelineResult}
    (hstart : view { tests := r.tests.length, total := r.results.length } = 0) :
    view (ofResult r) = r.results.countP kind := by
  rw [ofResult, view_foldl_count view h, hstart, Nat.zero_add]

variable (r : PipelineResult)

/-- Every result is counted at first. -/
theorem total_ofResult : (ofResult r).total = r.results.length := by
  have hkind : ∀ s m, (count s m).total = s.total + if false then 1 else 0 := by
    intro s m
    rw [count]
    split <;> rfl
  have h := view_foldl_count total hkind r.results
    { tests := r.tests.length, total := r.results.length }
  rw [ofResult, h, List.countP_false]
  rfl

theorem killed_ofResult : (ofResult r).killed = r.results.countP (·.isKilled) := by
  refine view_ofResult killed (fun s m => ?_) rfl
  rw [count, MutationResult.isKilled]
  cases m.result.status <;> simp [killed, Status.isKilled] <;> omega

theorem survived_ofResult : (ofResult r).survived = r.results.countP (·.survives) := by
  refine view_ofResult survived (fun s m => ?_) rfl
  rw [count, MutationResult.survives]
  cases m.result.status <;> simp

/-- **The counts add up**: every mutant is killed, has survived, or was not run. -/
theorem total_eq {r : PipelineResult} (h : ∀ m ∈ r.results, m.result.status ≠ .invalid) :
    (ofResult r).total = (ofResult r).killed + (ofResult r).survived + (ofResult r).dryRun := by
  have hall : r.results.countP (fun m => m.result.status ≠ .invalid) = r.results.length :=
    List.countP_eq_length.mpr fun m hm => decide_eq_true (h m hm)
  rw [total_ofResult, ← hall]
  refine (view_ofResult (fun s => s.killed + s.survived + s.dryRun) (fun s m => ?_) rfl).symm
  rw [count]
  cases m.result.status <;> simp [killed] <;> omega

end Summary

namespace Report

/-- The results that survived are as many as are counted. -/
theorem length_survivors (r : PipelineResult) :
    (survivors r).length = (Summary.ofResult r).survived := by
  rw [Summary.survived_ofResult, List.countP_eq_length_filter]
  rfl

/-- They are those that were run and not killed. -/
theorem survivors_eq {r : PipelineResult} (h : ∀ m ∈ r.results, m.result.status ≠ .invalid) :
    survivors r = r.results.filter fun m => !m.isKilled && m.result.status ≠ .dryRun := by
  refine List.filter_congr fun m hm => ?_
  have hvalid := h m hm
  rw [MutationResult.isKilled]
  cases hstatus : m.result.status with
  | invalid => exact absurd hstatus hvalid
  | passed | failed | crashed | timedout | dryRun => rfl

end Report

/-! ## The document -/

namespace Decimal

/-- The digits of a number. -/
theorem toList_toString (n : Nat) : (toString n).toList = Nat.toDigits 10 n := by
  rw [Nat.toString_eq_repr, Nat.toList_repr]

theorem isDigit_of_mem_fraction {digits places : Nat} {c : Char}
    (h : c ∈ (fraction digits places).toList) : Json.isDigit c = true := by
  rw [fraction] at h
  split at h
  · obtain rfl := List.mem_singleton.mp h
    rfl
  · rw [String.toList_append, String.toList_ofList, List.mem_append, toList_toString] at h
    obtain h | h := h
    · rw [List.eq_of_mem_replicate h]
      rfl
    · exact Json.Numeral.isDigit_of_mem_toDigits h

end Decimal

namespace Report

/-- A score is written as a numeral. -/
theorem whole_score (s : Score) : s.toJson.Whole where
  whole := by
    rw [Decimal.whole, Decimal.toList_toString]
    exact ⟨Nat.toDigits_ne_nil, fun _ => Json.Numeral.isDigit_of_mem_toDigits⟩
  leading := by
    rw [Decimal.whole, Decimal.toList_toString]
    exact fun _ => Json.Numeral.eq_nil_of_toDigits_eq
  fraction := fun _ => Decimal.isDigit_of_mem_fraction
  exponent := nofun

/-- So are the counts. -/
theorem whole_summary (s : Summary) : s.toJson.Whole := by
  refine Document.whole_ofFields ?_
  simp only [List.forall_mem_cons]
  refine ⟨?_, ?_, ?_, ?_, ?_, ?_, ?_, ?_, ?_, nofun⟩
  all_goals first | exact Document.whole_ofNat _ | exact whole_score _

/-- The entry of a mutant has no faults. -/
theorem whole_mutant (m : MutationResult) : m.toJson.Whole := by
  refine Document.whole_ofFields ?_
  simp only [List.forall_mem_cons]
  refine ⟨rfl, ?_, rfl, rfl, trivial, rfl, rfl, ?_, ?_, rfl, ?_, ?_, nofun⟩
  · exact Document.whole_ofNat _
  · exact Document.whole_ofOption (fun l : Location => Document.whole_ofText l.file) _
  · exact Document.whole_ofOption (fun l : Location => Document.whole_ofNat l.line.toNat) _
  · split
    · trivial
    · rfl
  · exact Document.whole_ofNat _

theorem whole_toJson (r : PipelineResult) : (toJson r).Whole := by
  refine Document.whole_ofFields ?_
  simp only [List.forall_mem_cons]
  refine ⟨?_, ?_, ?_, nofun⟩
  · exact Document.whole_ofList whole_mutant _
  · exact whole_summary _
  · exact Document.whole_ofList (fun t => Document.whole_ofText _) _

/-- **The text of the document is read back.** -/
theorem read_render_json (r : PipelineResult) :
    Json.read (render r .json).toList = (toJson r, []) := by
  refine Json.read_of_lays ?_
  rw [render, Document.toPretty, String.toList_ofList]
  exact (toJson r).lays_prettyAt 0 (whole_toJson r)

/-- The entries of a document about mutants. -/
def mutants (document : Document) : List Document :=
  ((document.field? "mutants").map Document.items).getD []

/-- Whether an entry says that its mutant was killed. -/
def isMarked (entry : Document) : Bool := entry.field? "killed" = some (.bool true)

theorem mutants_toJson (r : PipelineResult) :
    mutants (toJson r) = r.results.map MutationResult.toJson :=
  Json.Items.toList_foldr _

theorem isMarked_toJson (m : MutationResult) : isMarked m.toJson = m.isKilled := by
  have hfield : m.toJson.field? "killed" = some (.bool m.isKilled) := rfl
  rw [isMarked, hfield]
  cases m.isKilled <;> simp

/-- The entries that are marked are as many as are counted. -/
theorem countP_isMarked (r : PipelineResult) :
    (mutants (toJson r)).countP isMarked = (Summary.ofResult r).killed := by
  rw [mutants_toJson, List.countP_map, Summary.killed_ofResult]
  exact List.countP_congr fun m _ => by rw [Function.comp_apply, isMarked_toJson]

end Report

/-! ## The page -/

namespace Report

/-- What the page begins with. -/
def top (s : Summary) : String := "# Mutation Testing Report\n\n" ++ summaryTable s

/-- The heading of the chapter about the mutants that survived. -/
def survivedHeading : String := "\n## Survived\n\n"

/-- The chapter about all mutants. -/
def mutantsChapter (results : List MutationResult) : String :=
  chapter "\n## Mutants\n\n| id | status | tests | duration |\n|---|---|---:|---:|\n"
    (results.map MutationResult.tableLine)

/-- A chapter has a line for every item. -/
theorem chapter_map (heading : String) (line : α → String) (items : List α) :
    chapter heading (items.map line) =
      if 0 < items.length then heading ++ String.join (items.map line) else "" := by
  cases items with
  | nil => rfl
  | cons item items => exact (if_pos (Nat.succ_pos _)).symm

/-- **The page**, by the number of mutants that survived. -/
theorem render_markdown_eq (r : PipelineResult) :
    render r .markdown = top (Summary.ofResult r) ++
      (if 0 < (Summary.ofResult r).survived then
        survivedHeading ++ String.join ((survivors r).map MutationResult.survivorLine)
      else "") ++ mutantsChapter r.results := by
  rw [← length_survivors, ← chapter_map]
  rfl

/-- **There is a chapter about the mutants that survived if and only if some are counted.** -/
theorem append_survived_isPrefix_iff (r : PipelineResult) :
    (top (Summary.ofResult r) ++ survivedHeading).toList <+: (render r .markdown).toList ↔
      0 < (Summary.ofResult r).survived := by
  have hchapter : ¬ survivedHeading.toList <+: (mutantsChapter r.results).toList := by
    rw [mutantsChapter, chapter_map]
    split
    · rw [String.toList_append]
      intro h
      have hheading := List.prefix_of_prefix_length_le h (List.prefix_append _ _) (by decide)
      exact absurd hheading (by decide)
    · decide
  rw [render_markdown_eq, String.toList_append, String.toList_append, String.toList_append,
    List.append_assoc, List.prefix_append_right_inj]
  split
  · rename_i hsome
    rw [String.toList_append, List.append_assoc]
    exact iff_of_true (List.prefix_append _ _) hsome
  · rename_i hnone
    exact iff_of_false hchapter hnone

/-! ## Agreement -/

/-- **Results, their counts, a document and a page agree.** -/
structure Agrees (results : List MutationResult) (s : Summary) (document : Document)
    (page : String) : Prop where
  /-- Every result is counted. -/
  total_eq : s.total = results.length
  /-- Its mutant was killed, has survived, or was not run. -/
  sum_eq : s.total = s.killed + s.survived + s.dryRun
  /-- The document has the counts. -/
  summary_eq : document.field? "summary" = some s.toJson
  /-- It has an entry for every result, in order. -/
  mutants_eq : mutants document = results.map MutationResult.toJson
  /-- An entry is marked if its mutant was killed. -/
  marks_eq : (mutants document).map isMarked = results.map MutationResult.isKilled
  /-- As many entries are marked as are counted. -/
  killed_eq : s.killed = (mutants document).countP isMarked
  /-- The page has a chapter about survivors if and only if some are counted. -/
  chapter_iff : (top s ++ survivedHeading).toList <+: page.toList ↔ 0 < s.survived
  /-- The chapter has a line for each of them, in order, and nothing else. -/
  page_eq : page = top s ++
    (if 0 < s.survived then
      survivedHeading ++ String.join ((results.filter fun m =>
        !m.isKilled && m.result.status ≠ .dryRun).map MutationResult.survivorLine)
    else "") ++ mutantsChapter results
  /-- The score is the killed part of the mutants that were run. -/
  score_eq : s.score.toRat =
    (if s.killed = 0 ∧ s.survived = 0 then 100 else 100 * s.killed / (s.killed + s.survived) : ℚ)
  score_mem : 0 ≤ s.score.toRat ∧ s.score.toRat ≤ 100
  /-- It is full if and only if nothing survived. -/
  score_iff : s.score.toRat = 100 ↔ s.survived = 0
  /-- Its double is off by a part in `2 ^ 53` at most, and by nothing if it is full. -/
  double_dist : |s.score.toDouble.toRat - s.score.toRat| ≤ s.score.toRat / 2 ^ 53
  double_mem : 0 ≤ s.score.toDouble.toRat ∧ s.score.toDouble.toRat ≤ 100
  double_eq : s.survived = 0 → s.score.toDouble.toRat = 100

/-- **Without invalid statuses all reports agree.** -/
theorem agrees {r : PipelineResult} (h : ∀ m ∈ r.results, m.result.status ≠ .invalid) :
    Agrees r.results (Summary.ofResult r) (Json.read (render r .json).toList).1
      (render r .markdown) := by
  let s := Summary.ofResult r
  have hscore : s.score.killed ≤ s.score.executed := Nat.le_add_right s.killed s.survived
  have hfull : s.score.killed = s.score.executed ↔ s.survived = 0 := Nat.left_eq_add
  rw [read_render_json]
  exact {
    total_eq := Summary.total_ofResult r
    sum_eq := Summary.total_eq h
    summary_eq := rfl
    mutants_eq := mutants_toJson r
    marks_eq := by
      rw [mutants_toJson, List.map_map]
      exact List.map_congr_left fun m _ => isMarked_toJson m
    killed_eq := (countP_isMarked r).symm
    chapter_iff := append_survived_isPrefix_iff r
    page_eq := by rw [render_markdown_eq, survivors_eq h]
    score_eq := by
      rw [Score.toRat, Summary.score, Nat.cast_add]
      exact if_congr Nat.add_eq_zero_iff rfl rfl
    score_mem := ⟨s.score.toRat_nonneg, Score.toRat_le hscore⟩
    score_iff := (Score.toRat_eq_iff hscore).trans hfull
    double_dist := s.score.abs_toRat_toDouble_sub_le
    double_mem := ⟨s.score.toDouble.toRat_nonneg, Score.toRat_toDouble_le hscore⟩
    double_eq := fun hnone => Score.toRat_toDouble_eq (hfull.mpr hnone) }

end Report

end MutationLab
