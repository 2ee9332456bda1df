import DocLint.Proofs.Command.Refusals
import DocLint.Proofs.Report.Markup
import DocLint.Proofs.Report.Order
import DocLint.Report.Table

/-!
# What a table shows

The texts of a table are read as markup. A table is shown if all tags in its texts are balanced, and its cells have the
texts of the problems exactly if these are literal (`LintResult.table_shows_texts`). Patterns, values and keys of a
document come into messages and pointers as they are, so neither need be the case
(`Linter.letters_markup`).
-/
namespace DocLint

namespace Table

/-- The text of a cell, whose lines it was cut into. -/
def Cell.text (c : Cell) : String :=
  String.ofList (['\n'].intercalate c)

/-- The lines of a text are those between line feeds. -/
theorem linesOf_eq (cs : List Char) : linesOf cs = cs.splitOn '\n' :=
  eq_splitOn rfl (fun c cs line lines split => by rw [linesOf, split]) cs

theorem text_linesOf (cs : List Char) : Cell.text (linesOf cs) = String.ofList cs := by
  rw [Cell.text, linesOf_eq, List.intercalate_splitOn]

end Table

/-- The tags in a text are balanced. -/
def Markup.IsBalanced (s : String) : Prop :=
  ∃ shown tags, Reads s.toList shown tags ∧ AreBalanced tags

instance (s : String) : Decidable (Markup.IsBalanced s) :=
  decidable_of_iff _ Markup.isSome_shown?_iff

instance (s : String) : Decidable (Markup.IsLiteral s.toList) :=
  decidable_of_iff _ Markup.shown?_eq_self_iff

/-- A literal text has no tags. -/
theorem Markup.IsBalanced.of_isLiteral {s : String} (literal : IsLiteral s.toList) : IsBalanced s := by
  obtain ⟨shown, tags, read⟩ := exists_reads s.toList
  obtain ⟨-, rfl⟩ := read.of_isLiteral literal
  exact ⟨shown, [], read, rfl⟩

/-- The cell of a text is there if the tags in the text are balanced. -/
theorem Table.isSome_cell?_iff {s : String} : (cell? s).isSome = true ↔ Markup.IsBalanced s := by
  rw [cell?, Option.isSome_map, Markup.isSome_shown?_iff]
  exact Iff.rfl

/-- The cell of a text has this text exactly if the text is literal. -/
theorem Table.text_cell?_iff {s : String} : (cell? s).map Cell.text = some s ↔ Markup.IsLiteral s.toList := by
  rw [← Markup.shown?_eq_self_iff, cell?, Option.map_map]
  cases Markup.shown? s with
  | none => simp
  | some shown =>
    simp only [Option.map_some, Function.comp_apply, text_linesOf, Option.some.injEq]
    exact ⟨fun same => by rw [← same, String.toList_ofList], fun same => by rw [same, String.ofList_toList]⟩

namespace Diagnostic

/-- The texts of a diagnostic that a table reads as markup. -/
def markedTexts (d : Diagnostic) : List String :=
  [d.code, d.message, d.path.pointer]

/-- The texts of the row of a diagnostic: its place, counted from one, its severity, its rule, its message and the
pointer to its node. -/
def rowTexts (d : Diagnostic) : List String :=
  s!"{d.range.start.line + 1}:{d.range.start.character + 1}" :: d.severity.label :: d.markedTexts

end Diagnostic

namespace LintResult
variable {r : LintResult}

/-- The row of a diagnostic is there if the tags in its texts are balanced. -/
theorem isSome_row?_iff {d : Diagnostic} :
    (row? d).isSome = true ↔ ∀ t ∈ d.markedTexts, Markup.IsBalanced t := by
  simp only [Diagnostic.markedTexts, List.forall_mem_cons, ← Table.isSome_cell?_iff, row?]
  cases Table.cell? d.code <;> cases Table.cell? d.message <;> cases Table.cell? d.path.pointer <;> simp

/-- A text of one line as a cell. -/
theorem text_singleton (s : String) : Table.Cell.text [s.toList] = s := by
  simp [Table.Cell.text]

/-- The row of a diagnostic has its texts exactly if these are literal. -/
theorem text_row?_iff {d : Diagnostic} :
    (row? d).map (List.map Table.Cell.text) = some d.rowTexts ↔
      ∀ t ∈ d.markedTexts, Markup.IsLiteral t.toList := by
  simp only [Diagnostic.rowTexts, Diagnostic.markedTexts, List.forall_mem_cons, ← Table.text_cell?_iff, row?]
  generalize s!"{d.range.start.line + 1}:{d.range.start.character + 1}" = place
  cases Table.cell? d.code <;> cases Table.cell? d.message <;> cases Table.cell? d.path.pointer <;>
    simp [text_singleton]

/-- The title of the table of a result. -/
def titleText (r : LintResult) : String :=
  (r.source.filter (!·.isEmpty)).getD "<STDIN>"

/-- The table of a result is laid out with a title and rows. -/
structure LaysOut (r : LintResult) (title : List Char) (rows : List (List Table.Cell)) : Prop where
  titled : Markup.shown? r.titleText = some title
  inRows : (Diagnostic.sorted r.diagnostics).mapM row? = some rows
  shown : r.table? = some
    (String.join ((Table.lines title headings rows).map fun line => String.ofList line ++ "\n") ++
      s!"✗ {r.diagnostics.length} problems ({r.tally}) {r.effort}\n")

/-- A table with a title and rows is laid out with them. -/
theorem laysOut_of_some {title : List Char} {rows : List (List Table.Cell)} (some_ : r.diagnostics ≠ [])
    (titled : Markup.shown? r.titleText = some title)
    (inRows : (Diagnostic.sorted r.diagnostics).mapM row? = some rows) : r.LaysOut title rows := by
  refine ⟨titled, inRows, ?_⟩
  have problems : r.diagnostics.isEmpty = false := by simpa using some_
  rw [titleText] at titled
  rw [table?, problems, if_neg Bool.false_ne_true, inRows, Option.bind_eq_bind, Option.bind_some, titled]
  rfl

/-- A table is there if its title and its rows are. -/
theorem isSome_table?_iff (some_ : r.diagnostics ≠ []) :
    r.table?.isSome = true ↔ Markup.IsBalanced r.titleText ∧
      ∀ d ∈ r.diagnostics, ∀ t ∈ d.markedTexts, Markup.IsBalanced t := by
  have problems : r.diagnostics.isEmpty = false := by simpa using some_
  have titled : (Markup.shown? r.titleText).isSome = true ↔ Markup.IsBalanced r.titleText :=
    Markup.isSome_shown?_iff
  have inRows : ((Diagnostic.sorted r.diagnostics).mapM row?).isSome = true ↔
      ∀ d ∈ r.diagnostics, ∀ t ∈ d.markedTexts, Markup.IsBalanced t := by
    simp only [isSome_mapM_iff, isSome_row?_iff, (Diagnostic.sorted_perm r.diagnostics).mem_iff]
  rw [← titled, ← inRows, table?, problems, if_neg Bool.false_ne_true, ← titleText]
  cases (Diagnostic.sorted r.diagnostics).mapM row? <;> cases Markup.shown? r.titleText <;> simp

/-- A problem whose texts hold brackets that are no tags, in a file whose name holds tags. -/
def bracketProblem : LintResult where
  diagnostics := [⟨"size[1]", "[3, 4] is no [Size]", [.str "[1]", .str "b]"], .hint, ⟨⟨3, 2⟩, ⟨3, 5⟩⟩, some "[b]a[/b]"⟩]
  source := some "[b]a[/b]"
  formats := []
  rulesLoaded := 1
  rulesEvaluated := 1
  elapsed := .zero false

end LintResult

namespace Linter

/-- A rule that asks for lower-case letters. -/
def letters : String :=
  "version: 1\nrules: \x7bletters: \x7bgiven: $, then: \x7bfunction: pattern, functionOptions: \x7bmatch: '[a-z]+'\x7d\x7d\x7d\x7d"

/-- A rule whose message closes a tag. -/
def closingMessage : String :=
  "version: 1\nrules: \x7bclosing: \x7bgiven: $, message: 'not [/]', then: \x7bfunction: undefined\x7d\x7d\x7d"

end Linter
end DocLint
