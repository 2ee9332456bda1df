import DocLint.Command.Usage
import DocLint.Linter
import DocLint.Text.Styling

/-!
# Outcomes of a command

How a command ends: what goes to the standard output and to the error output, and the exit code. A
document without problems gives 0, one whose problems count as failure gives 1, and input that cannot be
used gives 2.
-/
namespace DocLint

/-- How a command ends. -/
inductive CommandOutcome where
  /-- A question about the program itself is answered. -/
  | told (text : String)
  /-- Nothing is asked for, so the help is shown as a complaint. -/
  | helpless (help : String)
  | misused (e : UsageError)
  | refused (e : LintError)
  /-- The document is linted. -/
  | reported (report : String) (failing : Bool)
  /-- Something failed that is no fault of the input. -/
  | crashed (cause : Failure)

namespace CommandOutcome

/-- The exit code. -/
def exitCode : CommandOutcome → Nat
  | .told _ => 0
  | .helpless _ => 2
  | .misused _ => 2
  | .refused _ => 2
  | .reported _ failing => if failing then 1 else 0
  | .crashed _ => 1

/-- What goes to the standard output. -/
def output : CommandOutcome → String
  | .told text => text
  | .reported report _ => report
  | _ => ""

/-- What is wrong with the input. -/
def complaint? : CommandOutcome → Option String
  | .misused e => some (Text.withoutStyles e.message)
  | .refused e => some (Text.withoutStyles e.message)
  | _ => none

end CommandOutcome
end DocLint
