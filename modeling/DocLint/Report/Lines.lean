import DocLint.Path.Pointer
import DocLint.Report.Result

/-!
# The report in lines

Every problem on a line of its own: source, line, character, severity, rule, path and message between
colons. Lines and characters count from one.
-/
namespace DocLint

/-- The line of a diagnostic. -/
def Diagnostic.line (d : Diagnostic) : String :=
  ":".intercalate
    [d.source.getD "", toString (d.range.start.line + 1), toString (d.range.start.character + 1),
      d.severity.label, d.code, d.path.pointer, d.message]

/-- The report in lines; without problems it is empty. -/
def LintResult.lines (r : LintResult) : String :=
  "\n".intercalate ((Diagnostic.sorted r.diagnostics).map Diagnostic.line)

end DocLint
