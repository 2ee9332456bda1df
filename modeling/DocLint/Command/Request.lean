import DocLint.Command.Arguments
import DocLint.File.Access
import DocLint.Settings

/-!
# Requests to lint

What a command line asks for when it asks to lint a document. Values are checked in the order in which
the options are given, the document last.
-/
namespace DocLint

/-- The options of the command that lints. -/
inductive LintOption where
  | ruleset
  | format
  | failSeverity
  | project
  | help
  deriving DecidableEq

/-- What a command line chooses. What is not chosen is left to the settings of the project. -/
structure LintChoices where
  ruleset : Option String := none
  format : Option OutputFormat := none
  failSeverity : Option Severity := none
  project : Option String := none

/-- A request to lint a document. -/
structure LintRequest extends LintChoices where
  document : String

namespace LintChoices

/-- The names of the options. -/
def optionNames : List (OptionName LintOption) :=
  [⟨.ruleset, "--ruleset", some 'r', true⟩,
   ⟨.format, "--format", none, true⟩,
   ⟨.failSeverity, "--fail-severity", none, true⟩,
   ⟨.project, "--project", none, true⟩,
   ⟨.help, "--help", none, false⟩]

/-- A value that must be one of a few names. -/
def choose {α : Type} (option : String) (choices : List (String × α)) (value : String) :
    Except UsageError α :=
  match choices.lookup value with
  | some a => .ok a
  | none =>
    .error (.valueRefused (Text.quoted option) (Text.quoted value ++ " is not one of " ++
      ", ".intercalate (choices.map fun c => Text.quoted c.1) ++ "."))

variable {m : Type → Type} [Monad m]

/-- The name of a file, which need not exist but must not be that of a directory. -/
def fileName (files : FileAccess m) (subject value : String) : m (Except UsageError String) := do
  if (← files.kind value) == some .directory then
    return .error (.valueRefused subject s!"File {Text.quoted value} is a directory.")
  return .ok (FileName.tidied value)

/-- The name of a directory that exists. -/
def directoryName (files : FileAccess m) (subject value : String) :
    m (Except UsageError String) := do
  match ← files.kind value with
  | some .directory => return .ok (FileName.tidied value)
  | some .file =>
    return .error (.valueRefused subject s!"Directory {Text.quoted value} is a file.")
  | none =>
    return .error (.valueRefused subject s!"Directory {Text.quoted value} does not exist.")

/-- Adds the value of an option to what is chosen. -/
def put (files : FileAccess m) (c : LintChoices) (option : LintOption) (value : String) :
    m (Except UsageError LintChoices) := do
  match option with
  | .ruleset =>
    return (← fileName files "'--ruleset' / '-r'" value).map fun n => { c with ruleset := some n }
  | .format =>
    return (choose "--format" (OutputFormat.all.map fun f => (f.name, f)) value).map fun f =>
      { c with format := some f }
  | .failSeverity =>
    return (choose "--fail-severity" (Severity.all.map fun s => (s.label, s)) value).map fun s =>
      { c with failSeverity := some s }
  | .project =>
    return (← directoryName files "'--project'" value).map fun n => { c with project := some n }
  | .help => return .ok c

/-- Adds the values of options to what is chosen, up to the first that is refused. -/
def putAll (files : FileAccess m) (c : LintChoices) :
    List (LintOption × String) → m (Except UsageError LintChoices)
  | [] => return .ok c
  | (option, value) :: more => do
    match ← c.put files option value with
    | .ok c => c.putAll files more
    | .error e => return .error e

end LintChoices

namespace LintRequest

variable {m : Type → Type} [Monad m]

/-- The name of the document that stands for the standard input. -/
def stdin : String := "-"

/-- The name of the document. -/
def documentName (files : FileAccess m) (value : String) : m (Except UsageError String) := do
  if value == stdin then return .ok stdin
  LintChoices.fileName files "'DOCUMENT'" value

/-- The request that arguments make. -/
def ofArguments (files : FileAccess m) (a : Arguments LintOption) :
    m (Except UsageError LintRequest) := do
  match ← LintChoices.putAll files {} a.values with
  | .error e => return .error e
  | .ok choices =>
    match a.operands with
    | [] => return .error (.operandMissing "DOCUMENT")
    | operand :: others =>
      match ← documentName files operand with
      | .error e => return .error e
      | .ok document =>
        return if others.isEmpty then .ok { choices with document }
          else .error (.operandsUnexpected others)

end LintRequest
end DocLint
