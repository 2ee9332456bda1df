import DocLint.File.Access
import DocLint.Log
import DocLint.Severity
import DocLint.Yaml.Construction

/-!
# Project settings

The settings that a project keeps in a file of its own: the rule set, the form of the report and the
severity from which problems count as failure. A setting that is not valid is noted and left at its
default, as all are when there is no file or it is no YAML.
-/
namespace DocLint

/-- The form of a report. -/
inductive OutputFormat where
  | table
  | json
  | lines
  deriving DecidableEq, Inhabited

namespace OutputFormat

/-- All forms. -/
def all : List OutputFormat :=
  [.table, .json, .lines]

/-- The name of a form. -/
def name : OutputFormat → String
  | .table => "rich"
  | .json => "json"
  | .lines => "porcelain"

/-- The form with a name. -/
def ofName? (n : String) : Option OutputFormat :=
  all.find? fun f => f.name == n

end OutputFormat

/-- The settings of a project. Without a form of the report it depends on where the report goes. -/
structure Settings where
  ruleset : String
  format : Option OutputFormat
  failSeverity : Severity
  deriving DecidableEq, Inhabited

namespace Settings

/-- The name of the file that holds the settings. -/
def fileName : String := ".ruleloom.yml"

/-- The settings of a project that has none. -/
def standard : Settings :=
  ⟨".ruleloom/ruleset.yml", none, .error⟩

/-- Reads the rule set. -/
def readRuleset (raw : Option Value) : String :=
  match raw.bind Value.string? with
  | some name => if (Text.trim name).isEmpty then standard.ruleset else FileName.tidied name
  | none => standard.ruleset

/-- Reads the form of the report. A value is looked at through its text, which it may not have. -/
def readFormat (raw : Option Value) : Except Failure (Option OutputFormat × List LogEntry) :=
  match raw with
  | none => .ok (none, [])
  | some v =>
    if v.isWritable then
      match OutputFormat.ofName? v.text with
      | some f => .ok (some f, [])
      | none => .ok (none, [.unknownOutputFormat v.text fileName])
    else .error (.refused Number.tooLongToWrite)

/-- Reads the severity from which problems count as failure. -/
def readFailSeverity (raw : Option Value) : Severity × List LogEntry :=
  match raw with
  | none => (standard.failSeverity, [])
  | some v =>
    match Severity.ofValue v with
    | .ok s => (s, [])
    | .error _ => (standard.failSeverity, [.invalidFailSeverity v.text fileName])

/-- The settings that a value holds. -/
def ofValue (data : Value) : Except Failure (Settings × List LogEntry) := do
  let (format, formatLog) ← readFormat (data.present? "format")
  let (failSeverity, severityLog) := readFailSeverity (data.present? "fail_severity")
  return (⟨readRuleset (data.field? "ruleset"), format, failSeverity⟩, formatLog ++ severityLog)

/-- The settings that a text holds. A text that is no YAML is noted; a value that its tag cannot be
read from is a failure. -/
def ofText (text : String) : Except Failure (Settings × List LogEntry) :=
  match Yaml.load text with
  | .ok data => ofValue data
  | .error .malformed => .ok (standard, [.unreadableSettings fileName])
  | .error e => .error (.yaml e)

/-- Reads the settings of the project in a directory. -/
def load {m : Type → Type} [Monad m] (files : FileAccess m) (directory : String) :
    m (Except Failure (Settings × List LogEntry)) := do
  let name := FileName.tidied (FileName.within directory fileName)
  if !(← files.isFile name) then return .ok (standard, [])
  match ← files.read name with
  | .error _ => return .ok (standard, [.unreadableSettings fileName])
  | .ok bytes =>
    match FileAccess.textOf bytes with
    | .error e => return .error (.encoding e)
    | .ok text => return ofText text

end Settings
end DocLint
