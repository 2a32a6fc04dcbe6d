import MutationLab.Decimal
import MutationLab.Json.Printing
import MutationLab.Result

/-! # Reports

The counts of a run, the mutation score, and the two forms of the report: a page for
readers and a document for programs. -/

namespace MutationLab

open Json (Document Numeral)

/-- The killed part of the executed mutants in percent; everything if none was executed. -/
structure Score where
  killed : Nat
  executed : Nat
  deriving DecidableEq, Repr

namespace Score

/-- The score as a double. -/
def toDouble (s : Score) : Decimal.Double :=
  if s.executed = 0 then .ofQuotient 100 1 else .ofQuotient (100 * s.killed) s.executed

/-- The score with two places. -/
def toText (s : Score) : String := Decimal.toText (s.toDouble.fixed 2) 2

/-- The score with the fewest places that read back. -/
def toJson (s : Score) : Document :=
  let (digits, places) := s.toDouble.shortest
  .number { negative := false, whole := (Decimal.whole digits places).toList,
            fraction := (Decimal.fraction digits places).toList, exponent := none }

end Score

/-- The counts of a run. -/
structure Summary where
  tests : Nat
  total : Nat
  survived : Nat := 0
  failed : Nat := 0
  crashed : Nat := 0
  timedout : Nat := 0
  dryRun : Nat := 0
  deriving DecidableEq, Repr

namespace Summary

/-- Count one more result. -/
def count (s : Summary) (r : MutationResult) : Summary :=
  match r.result.status with
  | .passed => { s with survived := s.survived + 1 }
  | .failed => { s with failed := s.failed + 1 }
  | .crashed => { s with crashed := s.crashed + 1 }
  | .timedout => { s with timedout := s.timedout + 1 }
  | .dryRun => { s with dryRun := s.dryRun + 1 }
  | .invalid => s

/-- The counts of a run. -/
def ofResult (r : PipelineResult) : Summary :=
  r.results.foldl count { tests := r.tests.length, total := r.results.length }

/-- The mutants that were detected. -/
def killed (s : Summary) : Nat := s.failed + s.crashed + s.timedout

/-- The mutation score. -/
def score (s : Summary) : Score := { killed := s.killed, executed := s.killed + s.survived }

/-- The counts as a document, the names in order. -/
def toJson (s : Summary) : Document :=
  .ofFields [("crashed", .ofNat s.crashed), ("dry_run", .ofNat s.dryRun),
    ("failed", .ofNat s.failed), ("killed", .ofNat s.killed), ("mutation_score", s.score.toJson),
    ("survived", .ofNat s.survived), ("tests", .ofNat s.tests), ("timedout", .ofNat s.timedout),
    ("total", .ofNat s.total)]

/-- The last line of a run. -/
def toText (s : Summary) : String :=
  s!"summary: killed={s.killed}, survived={s.survived}, mutation_score={s.score.toText}%"

end Summary

namespace MutationResult

/-- The whole milliseconds of the running time, in 64 bits. -/
def millis (r : MutationResult) : UInt64 := .ofNat r.result.time.millis

/-- The mutant as a document, the names in order. -/
def toJson (r : MutationResult) : Document :=
  let p := r.point
  .ofFields [("description", .ofText p.operator.description),
    ("duration_ms", .ofNat r.millis.toNat), ("function", .ofText p.function),
    ("id", .ofText p.id), ("killed", .bool r.isKilled),
    ("module", .ofText p.moduleName), ("mutator", .ofText p.operator.id),
    ("source_file", .ofOption (fun l => .ofText l.file) p.location),
    ("source_line", .ofOption (fun l => .ofNat l.line.toNat) p.location),
    ("status", .ofText r.result.status.name),
    ("stderr", if r.result.stderr.isEmpty then .null else .ofText r.result.stderr),
    ("tests", .ofNat p.tests.length)]

/-- Where the mutant is, for a reader: file and line, or the module. -/
def place (r : MutationResult) : String :=
  match r.point.location with
  | some l => s!"{l.file}:{l.line.toNat}"
  | none => r.point.moduleName

/-- The line of a mutant that survived. -/
def survivorLine (r : MutationResult) : String :=
  let p := r.point
  s!"- `{p.operator.id}` {p.operator.description} in `{p.function}` ({r.place})\n"

/-- The line of a mutant in the table of all. -/
def tableLine (r : MutationResult) : String :=
  s!"| {r.point.id} | {r.result.status.name} | {r.point.tests.length} | {r.millis.toNat}ms |\n"

end MutationResult

namespace Report

/-- The form of a report. -/
inductive Format where
  /-- A page for readers. -/
  | markdown
  /-- A document for programs. -/
  | json
  deriving DecidableEq, Repr

/-- The report as a document. -/
def toJson (r : PipelineResult) : Document :=
  .ofFields [("mutants", .ofList (r.results.map MutationResult.toJson)),
    ("summary", (Summary.ofResult r).toJson),
    ("tests", .ofList (r.tests.map fun t => .ofText t.name))]

/-- The table of the counts. -/
def summaryTable (s : Summary) : String :=
  "## Summary\n\n| metric | count |\n|---|---:|\n"
    ++ s!"| tests | {s.tests} |\n" ++ s!"| mutants | {s.total} |\n"
    ++ s!"| killed | {s.killed} |\n" ++ s!"| survived | {s.survived} |\n"
    ++ s!"| failed | {s.failed} |\n" ++ s!"| crashed | {s.crashed} |\n"
    ++ s!"| timedout | {s.timedout} |\n" ++ s!"| dry run | {s.dryRun} |\n"
    ++ s!"| mutation score | {s.score.toText}% |\n"

/-- The mutants that survived. -/
def survivors (r : PipelineResult) : List MutationResult :=
  r.results.filter fun m => m.result.status = .passed

/-- A heading with lines, or nothing when there is no line. -/
def chapter (heading : String) (lines : List String) : String :=
  if lines.isEmpty then "" else heading ++ String.join lines

/-- The report as a page. -/
def toMarkdown (r : PipelineResult) : String :=
  "# Mutation Testing Report\n\n" ++ summaryTable (Summary.ofResult r)
    ++ chapter "\n## Survived\n\n" ((survivors r).map MutationResult.survivorLine)
    ++ chapter "\n## Mutants\n\n| id | status | tests | duration |\n|---|---|---:|---:|\n"
      (r.results.map MutationResult.tableLine)

/-- The report in a form. -/
def render (r : PipelineResult) : Format → String
  | .markdown => toMarkdown r
  | .json => (toJson r).toPretty

end Report

end MutationLab
