import DocLint.Number.Decimal
import DocLint.Path.Pointer
import DocLint.Report.Markup
import DocLint.Report.Result
import DocLint.Text.Cells

/-!
# The report as a table

Every problem in a row of a framed table, under the source as a title, and a line that sums up. Every
column is as wide as its widest cell.
-/
namespace DocLint

namespace Table

/-- The lines of a text. -/
def linesOf : List Char → List (List Char)
  | [] => [[]]
  | c :: rest =>
    if c == '\n' then [] :: linesOf rest
    else
      match linesOf rest with
      | line :: lines => (c :: line) :: lines
      | [] => [[c]]

/-- A cell: the lines that are shown. -/
abbrev Cell := List (List Char)

/-- The cell of a text that may carry markup. -/
def cell? (text : String) : Option Cell :=
  (Markup.shown? text).map linesOf

/-- The number of columns of the terminal that a cell takes. -/
def width (c : Cell) : Nat :=
  (c.map Text.cells).foldr max 0

/-- Blanks. -/
def blanks (n : Nat) : List Char :=
  List.replicate n ' '

/-- A line filled up with blanks. -/
def padded (n : Nat) (line : List Char) : List Char :=
  line ++ blanks (n - Text.cells line)

/-- A line with blanks on both sides; of an odd number, one more on the right. -/
def centred (n : Nat) (line : List Char) : List Char :=
  let free := n - Text.cells line
  blanks (free / 2) ++ line ++ blanks (free - free / 2)

/-- A horizontal rule with a mark at each end and between columns. -/
def rule (opening stroke joint closing : Char) (widths : List Nat) : List Char :=
  let strokes := widths.map fun n => List.replicate (n + 2) stroke
  opening :: [joint].intercalate strokes ++ [closing]

/-- One line of a row. -/
def rowLine (stroke : Char) (widths : List Nat) (lines : List (List Char)) : List Char :=
  let cells := (widths.zip lines).map fun (n, line) => ' ' :: padded n line ++ [' ']
  stroke :: [stroke].intercalate cells ++ [stroke]

/-- The lines of a row, as many as its highest cell has. -/
def row (stroke : Char) (widths : List Nat) (cells : List Cell) : List (List Char) :=
  let height := (cells.map List.length).foldr max 0
  (List.range height).map fun i => rowLine stroke widths (cells.map fun lines => (lines[i]?).getD [])

/-- The widths of the columns of some rows. -/
def columnWidths (columns : Nat) (rows : List (List Cell)) : List Nat :=
  (List.range columns).map fun i =>
    (rows.map fun cells => ((cells[i]?).map width).getD 0).foldr max 0

/-- A table with a title and a row of headings. -/
def lines (title : List Char) (headings : List Cell) (rows : List (List Cell)) :
    List (List Char) :=
  let widths := columnWidths headings.length (headings :: rows)
  let total := (widths.map (· + 3)).foldr (· + ·) 0 + 1
  [centred total title, rule '┏' '━' '┳' '┓' widths] ++ row '┃' widths headings ++
    [rule '┡' '━' '╇' '┩' widths] ++ rows.flatMap (row '│' widths) ++
    [rule '└' '─' '┴' '┘' widths]

end Table

namespace LintResult

/-- The seconds that linting took. -/
def seconds (r : LintResult) : String :=
  (r.elapsed.divide 1000).textOneDecimal ++ "s"

/-- How many rules took part, and how long it took. -/
def effort (r : LintResult) : String :=
  s!"({r.rulesEvaluated} of {r.rulesLoaded} rules evaluated, {r.seconds})"

/-- The numbers of problems of each severity that has any. -/
def tally (r : LintResult) : String :=
  ", ".intercalate
    ((Severity.all.filter fun s => r.count s != 0).map fun s => s!"{r.count s} {s.label}")

/-- The headings of the table. -/
def headings : List Table.Cell :=
  ["Location", "Severity", "Rule", "Message", "Path"].map fun h => [h.toList]

/-- The row of a diagnostic. -/
def row? (d : Diagnostic) : Option (List Table.Cell) := do
  let place := s!"{d.range.start.line + 1}:{d.range.start.character + 1}"
  let code ← Table.cell? d.code
  let message ← Table.cell? d.message
  let pointer ← Table.cell? d.path.pointer
  return [[place.toList], [d.severity.label.toList], code, message, pointer]

/-- The report as a table; nothing when a text of it carries markup that closes what is not open. -/
def table? (r : LintResult) : Option String :=
  if r.diagnostics.isEmpty then some s!"✓ No problems found {r.effort}\n"
  else do
    let rows ← (Diagnostic.sorted r.diagnostics).mapM row?
    let title ← Markup.shown? (r.source.filter (!·.isEmpty) |>.getD "<STDIN>")
    let lines := (Table.lines title headings rows).map fun line => String.ofList line ++ "\n"
    return String.join lines ++
      s!"✗ {r.diagnostics.length} problems ({r.tally}) {r.effort}\n"

end LintResult
end DocLint
