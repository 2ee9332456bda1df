import DocLint.Proofs.Report.Lines
import DocLint.Report.Structured

/-!
# Reports of rearranged results

Problems are recorded in no promised order, as some checks answer late. The reports in lines and as JSON show them in
the order of what they are compared by, those that tie as they were recorded; so results that differ only in the order
of recording have the same reports if no two different problems tie (`LintResult.reports_in_order`).
-/
namespace DocLint.LintResult

/-- Results that differ in the order in which problems were recorded, if at all. The formats are a set. -/
structure Rearranges (r s : LintResult) : Prop where
  diagnostics : r.diagnostics.Perm s.diagnostics
  source : r.source = s.source
  formats : r.formats.Perm s.formats
  rulesLoaded : r.rulesLoaded = s.rulesLoaded
  rulesEvaluated : r.rulesEvaluated = s.rulesEvaluated
  elapsed : r.elapsed = s.elapsed

variable {r s : LintResult}

/-- The names of the formats have one order. -/
theorem sortedFormats_eq (perm : r.formats.Perm s.formats) : r.sortedFormats = s.sortedFormats := by
  have upTo_iff (a b : String) : (!Scalar.charsBefore b.toList a.toList) = true ↔ a ≤ b := by
    rw [Bool.not_eq_true', Bool.eq_false_iff, ne_eq, Scalar.charsBefore_toList, not_lt]
  have ordered (names : List String) :
      (names.mergeSort fun a b => !Scalar.charsBefore b.toList a.toList).Pairwise (· ≤ ·) := by
    refine (List.pairwise_mergeSort ?_ ?_ names).imp fun {a b} => (upTo_iff a b).mp
    · intro a b c
      simp only [upTo_iff]
      exact le_trans
    · intro a b
      simp only [Bool.or_eq_true, upTo_iff]
      exact le_total a b
  have rearranged : r.sortedFormats.Perm s.sortedFormats :=
    (List.mergeSort_perm _ _).trans (perm.trans (List.mergeSort_perm _ _).symm)
  exact rearranged.eq_of_pairwise (fun _ _ _ _ => le_antisymm) (ordered _) (ordered _)

theorem Rearranges.summary_eq (rearranges : r.Rearranges s) : r.summary = s.summary := by
  unfold summary
  rw [rearranges.source, sortedFormats_eq rearranges.formats, rearranges.rulesLoaded, rearranges.rulesEvaluated,
    rearranges.diagnostics.length_eq, rearranges.elapsed]

/-- The reports show the problems of a result, none lost or repeated, in the lexicographic order of source, line,
character, rule and message, and those that tie as they were recorded. Where no two different problems tie, results
that differ only in the order of recording have the same reports. -/
theorem reports_in_order (r : LintResult) :
    (∃ shown : List Diagnostic, shown.Perm r.diagnostics ∧
      shown.Pairwise (fun d e => d.place ≤ e.place) ∧
      (∀ place, shown.filter (·.place = place) = r.diagnostics.filter (·.place = place)) ∧
      r.lines = "\n".intercalate (shown.map Diagnostic.line) ∧
      r.structured =
        (Json.obj [("diagnostics", .arr (shown.map Diagnostic.toJson)), ("summary", r.summary)]).indented) ∧
    ∀ s : LintResult, r.Rearranges s →
      (∀ d ∈ r.diagnostics, ∀ e ∈ r.diagnostics, d.place = e.place → d = e) →
      r.structured = s.structured ∧ r.lines = s.lines := by
  constructor
  · exact ⟨Diagnostic.sorted r.diagnostics, Diagnostic.sorted_perm _, Diagnostic.sorted_pairwise _,
      Diagnostic.filter_sorted _, rfl, rfl⟩
  · intro s rearranges apart
    have same := Diagnostic.sorted_eq_of_perm rearranges.diagnostics apart
    constructor
    · rw [structured, structured, toJson, toJson, same, rearranges.summary_eq]
    · rw [lines, lines, same]

/-- Two problems, one of them recorded twice. -/
def repeatedProblem : LintResult :=
  { twoProblems with
    diagnostics := [titleProblem, contactProblem, titleProblem]
    formats := ["oas3.1", "oas3"] }

/-- The same problems as they are recorded when the check that finds two of them answers late. -/
def lateProblems : LintResult :=
  { twoProblems with
    diagnostics := [contactProblem, titleProblem, titleProblem]
    formats := ["oas3", "oas3.1"] }

theorem repeatedProblem_rearranged :
    repeatedProblem.Rearranges lateProblems ∧
    (∀ d ∈ repeatedProblem.diagnostics, ∀ e ∈ repeatedProblem.diagnostics, d.place = e.place → d = e) ∧
    repeatedProblem.structured = lateProblems.structured ∧ repeatedProblem.lines = lateProblems.lines := by
  have rearranges : repeatedProblem.Rearranges lateProblems :=
    ⟨.swap _ _ _, rfl, .swap _ _ _, rfl, rfl, rfl⟩
  have apart : ∀ d ∈ repeatedProblem.diagnostics, ∀ e ∈ repeatedProblem.diagnostics, d.place = e.place → d = e := by
    decide
  exact ⟨rearranges, apart, (reports_in_order repeatedProblem).2 lateProblems rearranges apart⟩

end DocLint.LintResult
