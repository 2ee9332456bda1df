import DocLint.Command.Outcome
import DocLint.Command.Request
import DocLint.Report.Lines
import DocLint.Report.Structured
import DocLint.Report.Table

/-!
# The command line

The program as a command with arguments, for any way to get at files, at the standard input and at a
clock. What the command line leaves open is taken from the settings of the project, and what these leave
open has a default.
-/
namespace DocLint

/-- What surrounds a command. -/
structure Surroundings (m : Type → Type) where
  files : FileAccess m
  /-- The bytes of the standard input. -/
  input : m (List UInt8)
  /-- Milliseconds since some moment in the past. -/
  clock : m Nat
  /-- Whether the standard output is a terminal. -/
  onTerminal : Bool

namespace Command

/-- The name of the program. -/
def program : String := "ruleloom"

/-- The version of the program. -/
def version : String := "0.3.0"

/-- The name of the command that lints. -/
def lintName : String := "lint"

/-- A text of lines. -/
def textOfLines (lines : List String) : String :=
  String.join (lines.map (· ++ "\n"))

/-- The help of the program. -/
def help : String :=
  textOfLines
    [s!"Usage: {program} [OPTIONS] COMMAND [ARGS]...", "",
     "  Declarative rule runner for YAML and JSON documents.", "",
     "Options:",
     "  --version      Show the version and exit.",
     "  -v, --verbose  Verbose output.",
     "  -q, --quiet    Minimal output (errors only).",
     "  --help         Show this message and exit.", "",
     "Commands:",
     s!"  {lintName}  Lint DOCUMENT against a ruleset."]

/-- The help of the command that lints. -/
def lintHelp : String :=
  textOfLines
    [s!"Usage: {program} {lintName} [OPTIONS] DOCUMENT", "",
     "  Lint DOCUMENT (a YAML or JSON file, or - for stdin) against a ruleset.", "",
     "  Exit codes: 0 = clean or only problems below the fail severity, 1 = problems",
     "  at or above the fail severity, 2 = configuration error.", "",
     "Options:",
     "  -r, --ruleset FILE                      Ruleset file.",
     "  --format [rich|json|porcelain]          Output format.",
     "  --fail-severity [error|warn|info|hint]  Exit 1 from this severity on.",
     "  --project DIRECTORY                     Project root holding the settings.",
     "  --help                                  Show this message and exit."]

/-- The options of the program. -/
inductive ProgramOption where
  | version
  | verbose
  | quiet
  | help
  deriving DecidableEq

/-- The names of the options of the program. -/
def optionNames : List (OptionName ProgramOption) :=
  [⟨.version, "--version", none, false⟩,
   ⟨.verbose, "--verbose", some 'v', false⟩,
   ⟨.quiet, "--quiet", some 'q', false⟩,
   ⟨.help, "--help", none, false⟩]

/-- The answer to the first option that asks about the program. -/
def answer? (a : Arguments ProgramOption) : Option CommandOutcome :=
  a.options.findSome? fun o =>
    match o.1 with
    | .version => some (.told s!"{program}, version {version}\n")
    | .help => some (.told help)
    | _ => none

/-- The log entries that are shown: from warnings on, all of them or errors alone. -/
def shown (a : Arguments ProgramOption) (entry : LogEntry) : Bool :=
  if a.has .verbose then true
  else
    match entry.level with
    | .debug => false
    | .warning => !a.has .quiet
    | .error => true

/-- A report that is no table: nothing when it is empty, else a text that ends its last line. -/
def plainReport (onTerminal : Bool) (text : String) : String :=
  if text.isEmpty then "" else (if onTerminal then text else Text.withoutStyles text) ++ "\n"

/-- The report in a form. -/
def report (onTerminal : Bool) (r : LintResult) : OutputFormat → Except Failure String
  | .table =>
    match r.table? with
    | some table => .ok table
    | none => .error .markup
  | .json => .ok (plainReport onTerminal r.structured)
  | .lines => .ok (plainReport onTerminal r.lines)

/-- The rule set that a request means: its own, or that of the settings, which is looked for in the
directory of the project. -/
def rulesetName (workingDir : String) (r : LintRequest) (s : Settings) : String :=
  match r.ruleset with
  | some name => name
  | none => FileName.tidied (FileName.within (r.project.getD workingDir) s.ruleset)

variable {m : Type → Type} [Monad m]

/-- What a request asks to lint. -/
def inputOf (around : Surroundings m) (r : LintRequest) : m (Except Failure Linter.Input) := do
  if r.document != LintRequest.stdin then return .ok (.file r.document)
  match FileAccess.textOf (← around.input) with
  | .ok text => return .ok (.stdin text)
  | .error e => return .error (.encoding e)

/-- Lints an input and reports what is found. -/
def lintInput (around : Surroundings m) (r : LintRequest) (s : Settings) (input : Linter.Input) :
    m (CommandOutcome × List LogEntry) := do
  let start ← around.clock
  let linted ← Linter.lint around.files input (rulesetName around.files.workingDir r s)
  let stop ← around.clock
  match linted with
  | .error (.failed cause) => return (.crashed cause, [])
  | .error e => return (.refused e, [])
  | .ok (result, log) =>
    let result := { result with elapsed := .ofInt (stop - start : Nat) }
    let form := (r.format.orElse fun _ => s.format).getD
      (if around.onTerminal then .table else .lines)
    match report around.onTerminal result form with
    | .error cause => return (.crashed cause, log)
    | .ok text =>
      return (.reported text (result.fails (r.failSeverity.getD s.failSeverity)), log)

/-- Does what a request asks for. -/
def lint (around : Surroundings m) (r : LintRequest) : m (CommandOutcome × List LogEntry) := do
  match ← Settings.load around.files (r.project.getD around.files.workingDir) with
  | .error cause => return (.crashed cause, [])
  | .ok (settings, log) =>
    match ← inputOf around r with
    | .error cause => return (.crashed cause, log)
    | .ok input =>
      let (outcome, more) ← lintInput around r settings input
      return (outcome, log ++ more)

/-- Runs the command that lints. -/
def runLint (around : Surroundings m) (arguments : List String) :
    m (CommandOutcome × List LogEntry) := do
  match Arguments.read LintChoices.optionNames true arguments with
  | .error e => return (.misused e, [])
  | .ok a =>
    if a.has .help then return (.told lintHelp, [])
    match ← LintRequest.ofArguments around.files a with
    | .error e => return (.misused e, [])
    | .ok r => lint around r

/-- The outcome for a command that there is not. A name that could be an option is read as one first,
which may answer it. -/
def unknownCommand (arguments : List String) (name : String) : CommandOutcome :=
  let unknown := CommandOutcome.misused (.unknownCommand name (Text.namesLike name [lintName]))
  if Arguments.isOption name then
    match Arguments.read optionNames false arguments with
    | .error e => .misused e
    | .ok a => (answer? a).getD unknown
  else unknown

/-- Runs the program. -/
def run (around : Surroundings m) (arguments : List String) :
    m (CommandOutcome × List LogEntry) := do
  if arguments.isEmpty then return (.helpless help, [])
  match Arguments.read optionNames false arguments with
  | .error e => return (.misused e, [])
  | .ok a =>
    match answer? a, a.operands with
    | some outcome, _ => return (outcome, [])
    | none, [] => return (.misused .commandMissing, [])
    | none, name :: others =>
      if name == lintName then
        let (outcome, log) ← runLint around others
        return (outcome, log.filter (shown a))
      else return (unknownCommand a.operands name, [])

end Command
end DocLint
