import DocLint.Report.Result
import DocLint.Value.Printed

/-!
# The report as JSON

All problems in order and a summary, as one JSON text.
-/
namespace DocLint

/-- A place as JSON. -/
def Position.toJson (p : Position) : Json :=
  .obj [("line", .int p.line), ("character", .int p.character)]

/-- A text that may be missing as JSON. -/
def Json.ofText? (text : Option String) : Json :=
  (text.map Json.str).getD .null

/-- A diagnostic as JSON. -/
def Diagnostic.toJson (d : Diagnostic) : Json :=
  .obj
    [("code", .str d.code),
      ("message", .str d.message),
      ("path", .arr (d.path.map Scalar.toJson)),
      ("severity", .str d.severity.label),
      ("source", .ofText? d.source),
      ("range", .obj [("start", d.range.start.toJson), ("end", d.range.stop.toJson)])]

namespace LintResult

/-- The names of the formats in order of their characters. -/
def sortedFormats (r : LintResult) : List String :=
  r.formats.mergeSort fun a b => !Scalar.charsBefore b.toList a.toList

/-- The summary as JSON. -/
def summary (r : LintResult) : Json :=
  .obj
    [("source", .ofText? r.source),
      ("formats", .arr (r.sortedFormats.map Json.str)),
      ("rules_loaded", .int r.rulesLoaded),
      ("rules_evaluated", .int r.rulesEvaluated),
      ("problems", .int r.diagnostics.length),
      ("elapsed_ms", .real r.elapsed)]

/-- The report as JSON. -/
def toJson (r : LintResult) : Json :=
  .obj
    [("diagnostics", .arr ((Diagnostic.sorted r.diagnostics).map Diagnostic.toJson)),
      ("summary", r.summary)]

/-- The report as a JSON text. -/
def structured (r : LintResult) : String :=
  r.toJson.indented

end LintResult
end DocLint
