import DocLint.Proofs.Command.Refusals
import DocLint.Proofs.Report.Order
import DocLint.Report.Lines
import DocLint.Text.Lines

/-!
# One line for each problem

The report in lines has exactly as many lines as there are problems if no text that a problem shows has a line end in
it, and then each line is one problem, in order (`LintResult.lines_splitOnP`). Texts are shown as they are, so a
message with a line feed takes two lines (`Linter.brokenMessage_twoLines`).
-/
namespace DocLint
variable {c : Char}

theorem ne_of_isLineEnd (ends : Text.isLineEnd c = true) {d : Char} (plain : Text.isLineEnd d = false) : c ≠ d := by
  rintro rfl
  rw [plain] at ends
  cases ends

/-- Digits end no line. -/
theorem not_mem_toString (ends : Text.isLineEnd c = true) (n : Nat) : c ∉ (toString n).toList := by
  intro member
  rw [Nat.toString_eq_repr, Nat.toList_repr] at member
  have digit := Nat.isDigit_of_mem_toDigits (b := 10) (by decide) (by decide) member
  simp only [Text.isLineEnd, Bool.or_eq_true, beq_iff_eq] at ends
  rcases ends with ((((((((rfl | rfl) | rfl) | rfl) | rfl) | rfl) | rfl) | rfl) | rfl) | rfl
  all_goals exact absurd digit (by decide)

theorem not_mem_label (ends : Text.isLineEnd c = true) (severity : Severity) : c ∉ severity.label.toList := by
  have plain : severity.label.toList.all (!Text.isLineEnd ·) = true := by
    cases severity
    all_goals decide
  exact fun member => ne_of_isLineEnd ends (by simpa using List.all_eq_true.mp plain c member) rfl

/-- Line ends of a segment stay in a pointer and no others are in it. -/
theorem mem_escapeChars_iff (ends : Text.isLineEnd c = true) {cs : List Char} :
    c ∈ Pointer.escapeChars cs ↔ c ∈ cs := by
  have one (d : Char) : c ∈ Pointer.escapeChar d ↔ c = d := by
    have plain : ['~', '/', '0', '1'].all (!Text.isLineEnd ·) = true := by decide
    have unlike : ∀ e ∈ ['~', '/', '0', '1'], c ≠ e := fun e member =>
      ne_of_isLineEnd ends (by simpa using List.all_eq_true.mp plain e member)
    unfold Pointer.escapeChar
    split_ifs with tilde slash
    · rw [eq_of_beq tilde]
      simp [unlike '~', unlike '0']
    · rw [eq_of_beq slash]
      simp [unlike '~', unlike '/', unlike '1']
    · exact List.mem_singleton
  unfold Pointer.escapeChars
  simp only [List.mem_flatMap, one, exists_eq_right']

theorem mem_pointer_iff (ends : Text.isLineEnd c = true) {path : Path} :
    c ∈ path.pointer.toList ↔ ∃ t ∈ path.texts, c ∈ t.toList := by
  have sharp : c ∉ "#".toList := fun member =>
    ne_of_isLineEnd ends (by decide : Text.isLineEnd '#' = false) (List.mem_singleton.mp member)
  have slash : c ∉ "/".toList := fun member =>
    ne_of_isLineEnd ends (by decide : Text.isLineEnd '/' = false) (List.mem_singleton.mp member)
  have segment (s : Scalar) : c ∈ ("/" ++ Pointer.escape s.text).toList ↔ c ∈ s.text.toList := by
    rw [String.toList_append, List.mem_append, or_iff_right slash, Pointer.escape, String.toList_ofList,
      mem_escapeChars_iff ends]
  rw [Path.pointer, String.toList_append, List.mem_append, or_iff_right sharp, String.toList_join]
  simp only [List.mem_flatMap, Path.texts, List.mem_map, exists_exists_and_eq_and, segment]

namespace Diagnostic

/-- The texts that a diagnostic shows in its line. -/
def texts (d : Diagnostic) : List String :=
  d.source.getD "" :: d.code :: d.message :: d.path.texts

/-- No text of a diagnostic has a character of a class. -/
def IsFreeOf (d : Diagnostic) (p : Char → Bool) : Prop :=
  ∀ t ∈ d.texts, ∀ c ∈ t.toList, p c = false

/-- The line ends in the line of a diagnostic are those in its texts. -/
theorem mem_line_iff (ends : Text.isLineEnd c = true) {d : Diagnostic} :
    c ∈ d.line.toList ↔ ∃ t ∈ d.texts, c ∈ t.toList := by
  have colon : c ≠ ':' := ne_of_isLineEnd ends (by decide)
  unfold line
  rw [String.toList_intercalate]
  change c ∈ [':'].intercalate _ ↔ _
  simp only [List.map_cons, List.map_nil, intercalate_cons_eq, List.mem_append, List.flatMap_cons, List.mem_cons,
    List.flatMap_nil, colon, false_or, not_mem_toString ends, not_mem_label ends, mem_pointer_iff ends, texts,
    or_and_right, exists_or, exists_eq_left, List.not_mem_nil, or_false]
  exact or_congr_right (or_congr_right or_comm)

/-- The line of a diagnostic is one line if its texts have no line ends. -/
theorem isFreeOf_iff {p : Char → Bool} (only : ∀ c, p c = true → Text.isLineEnd c = true) {d : Diagnostic} :
    d.IsFreeOf p ↔ ∀ c ∈ d.line.toList, p c = false := by
  simp only [IsFreeOf, ← Bool.not_eq_true]
  constructor
  · intro free c member separates
    obtain ⟨t, own, here⟩ := (mem_line_iff (only c separates)).mp member
    exact free t own c here separates
  · intro free t own c here separates
    exact free c ((mem_line_iff (only c separates)).mpr ⟨t, own, here⟩) separates

end Diagnostic

namespace LintResult
variable (r : LintResult)

/-- The report in lines is cut where the lines of the problems are, and between them. -/
theorem splitOnP_lines {p : Char → Bool} (feed : p '\n' = true) (some : r.diagnostics ≠ []) :
    r.lines.toList.splitOnP p =
      ((Diagnostic.sorted r.diagnostics).map fun d => d.line.toList).flatMap (List.splitOnP p) := by
  unfold lines
  rw [String.toList_intercalate, List.map_map]
  refine splitOnP_intercalate feed fun none => some ?_
  rw [List.map_eq_nil_iff] at none
  exact ((Diagnostic.sorted_perm r.diagnostics).symm.trans (none ▸ .refl _)).eq_nil

/-- Where lines end at line feeds and perhaps at other line ends, the report in lines of any problems has as many lines
as there are problems exactly if no text of a problem has a line end, and then the lines are those of the problems, in
the order of their sources, places, rules and messages. -/
theorem lines_splitOnP {p : Char → Bool} (feed : p '\n' = true)
    (only : ∀ c, p c = true → Text.isLineEnd c = true) :
    (Diagnostic.sorted r.diagnostics).Perm r.diagnostics ∧
    (Diagnostic.sorted r.diagnostics).Pairwise (fun d e => d.place ≤ e.place) ∧
    (r.diagnostics = [] → r.lines = "") ∧
    (r.diagnostics ≠ [] →
      ((r.lines.toList.splitOnP p).length = r.diagnostics.length ↔ ∀ d ∈ r.diagnostics, d.IsFreeOf p) ∧
      ((∀ d ∈ r.diagnostics, d.IsFreeOf p) →
        r.lines.toList.splitOnP p = (Diagnostic.sorted r.diagnostics).map fun d => d.line.toList)) := by
  have sorted := Diagnostic.sorted_perm r.diagnostics
  have free_iff : (∀ part ∈ (Diagnostic.sorted r.diagnostics).map fun d => d.line.toList, ∀ c ∈ part, p c = false) ↔
      ∀ d ∈ r.diagnostics, d.IsFreeOf p := by
    simp only [List.forall_mem_map, sorted.mem_iff, Diagnostic.isFreeOf_iff only]
  refine ⟨sorted, Diagnostic.sorted_pairwise r.diagnostics, fun none => ?_, fun some => ⟨?_, fun free => ?_⟩⟩
  · rw [none] at sorted
    rw [lines, none, (List.perm_nil.mp sorted)]
    rfl
  · rw [splitOnP_lines r feed some, ← free_iff, ← length_flatMap_splitOnP, List.length_map, sorted.length_eq]
  · rw [splitOnP_lines r feed some, flatMap_splitOnP_eq_self (free_iff.mpr free)]

/-- A problem in the middle of a document. -/
def titleProblem : Diagnostic :=
  ⟨"title", "\"a~b\" must be camel case", [.str "a/b", .int 0], .warning, ⟨⟨3, 2⟩, ⟨3, 5⟩⟩, some "api.yaml"⟩

/-- A problem with a whole document. -/
def contactProblem : Diagnostic :=
  ⟨"contact", "missing", [], .error, ⟨⟨0, 0⟩, ⟨4, 0⟩⟩, some "api.yaml"⟩

/-- Two problems, the later one in the document first. -/
def twoProblems : LintResult where
  diagnostics := [titleProblem, contactProblem]
  source := some "api.yaml"
  formats := []
  rulesLoaded := 2
  rulesEvaluated := 2
  elapsed := .zero false

theorem twoProblems_splitOnP :
    Text.isLineEnd '\n' = true ∧ (∀ d ∈ twoProblems.diagnostics, d.IsFreeOf Text.isLineEnd) ∧
    twoProblems.lines.toList.splitOnP Text.isLineEnd =
      ["api.yaml:1:1:error:contact:#:missing".toList,
        "api.yaml:4:3:warn:title:#/a~1b/0:\"a~b\" must be camel case".toList] := by
  have free : ∀ d ∈ twoProblems.diagnostics, d.IsFreeOf Text.isLineEnd := by
    have checked : twoProblems.diagnostics.all (fun d => d.texts.all fun t => t.toList.all (!Text.isLineEnd ·)) =
        true := by
      decide
    simpa only [Diagnostic.IsFreeOf, List.all_eq_true, Bool.not_eq_true'] using checked
  have sorted : Diagnostic.sorted twoProblems.diagnostics = [contactProblem, titleProblem] := by
    have later : (Diagnostic.comparePlaces titleProblem contactProblem != .gt) = false := by decide
    simp [twoProblems, Diagnostic.sorted, List.mergeSort, later]
  have shown : [contactProblem, titleProblem].map (fun d => d.line.toList) =
      ["api.yaml:1:1:error:contact:#:missing".toList,
        "api.yaml:4:3:warn:title:#/a~1b/0:\"a~b\" must be camel case".toList] := by
    decide
  obtain ⟨_, _, _, cut⟩ := lines_splitOnP twoProblems (p := Text.isLineEnd) rfl fun _ => id
  have lines := (cut (List.cons_ne_nil _ _)).2 free
  rw [sorted, shown] at lines
  exact ⟨rfl, free, lines⟩

end LintResult

namespace Linter

/-- A rule whose message has two lines. -/
def brokenMessage : String :=
  "version: 1\nrules: \x7bflat: \x7bgiven: $, message: \"two\\nlines\", then: \x7bfunction: undefined\x7d\x7d\x7d"

/-- A document with one problem is reported in two lines if the message of the problem has a line feed. -/
theorem brokenMessage_twoLines :
    ∃ r log, lint (Command.alone brokenMessage).files (.stdin "a") "rules.yml" = pure (.ok (r, log)) ∧
      r.diagnostics.length = 1 ∧ (r.lines.toList.splitOn '\n').length = 2 := by
  have shown : ((lint (Command.alone brokenMessage).files (.stdin "a") "rules.yml").toOption.map fun found =>
      (found.1.diagnostics.length, (found.1.lines.toList.splitOn '\n').length)) = some (1, 2) := by
    decide +kernel
  obtain ⟨⟨r, log⟩, linted, counts⟩ := exists_ok_of_toOption shown
  obtain ⟨one, two⟩ := Prod.mk.inj counts
  exact ⟨r, log, linted, one, two⟩

end Linter
end DocLint
