import DocLint.Diagnostic

/-!
# Results of linting

What linting a document has found, with what the reports say about it. The reports list the problems by
place, whatever the order in which they were found.
-/
namespace DocLint

/-- What linting a document has found. -/
structure LintResult where
  diagnostics : List Diagnostic
  source : Option String
  formats : List String
  rulesLoaded : Nat
  rulesEvaluated : Nat
  /-- The duration in milliseconds. -/
  elapsed : Binary64
  deriving Inhabited

namespace Diagnostic

/-- The order of two texts by code points. -/
def compareTexts (s t : String) : Ordering :=
  if Scalar.charsBefore s.toList t.toList then .lt
  else if s = t then .eq
  else .gt

/-- The order of two diagnostics: by source, by the start of their ranges, by rule and by message. A
missing source counts as an empty one. -/
def comparePlaces (d e : Diagnostic) : Ordering :=
  (compareTexts (d.source.getD "") (e.source.getD "")).then <|
    (compare d.range.start.line e.range.start.line).then <|
      (compare d.range.start.character e.range.start.character).then <|
        (compareTexts d.code e.code).then (compareTexts d.message e.message)

/-- Diagnostics in order. Those that the order does not tell apart stay as they are. -/
def sorted (diagnostics : List Diagnostic) : List Diagnostic :=
  diagnostics.mergeSort fun d e => comparePlaces d e != .gt

end Diagnostic

namespace LintResult

/-- The number of problems of a severity. -/
def count (r : LintResult) (s : Severity) : Nat :=
  r.diagnostics.countP fun d => d.severity == s

/-- Whether a problem is as grave as a threshold. -/
def fails (r : LintResult) (threshold : Severity) : Bool :=
  r.diagnostics.any fun d => d.severity.reaches threshold

end LintResult
end DocLint
