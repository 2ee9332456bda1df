import DocLint.File.Access
import DocLint.Query.Evaluation
import DocLint.Report.Result
import DocLint.Rule.Ruleset
import DocLint.Run.Execution

/-!
# The linter

Linting a document against a rule set, both given by the names of their files; a document may also be
given by its text. What is wrong with either is reported as such.
-/
namespace DocLint

/-- Why a document could not be linted. -/
inductive LintError where
  | rulesetNotFound (name : String)
  | invalidRuleset (reason : String)
  | unreadableDocument (reason : String)
  /-- Something failed that is no fault of the input. -/
  | failed (cause : Failure)
  deriving Inhabited

/-- What is wrong, for the faults of the input. -/
def LintError.message : LintError → String
  | .rulesetNotFound name => s!"Ruleset not found: {name}"
  | .invalidRuleset reason => s!"Invalid ruleset: {reason}"
  | .unreadableDocument reason => s!"Cannot read document: {reason}"
  | .failed cause => cause.message

namespace Linter

/-- A failure of an input: what it says when it is a refusal, and a failure of another kind
otherwise. -/
def blame {α : Type} (fault : String → LintError) : Except Failure α → Except LintError α
  | .ok a => .ok a
  | .error failure =>
    if failure.isRefusal then .error (fault failure.message) else .error (.failed failure)

/-- The rule set that a text holds. A text that is no YAML is refused under the name of its file. -/
def rulesetOfText (workingDir name text : String) : Except Failure Ruleset :=
  match Yaml.load text with
  | .ok data => Ruleset.ofValue Registry.core workingDir (some (FileName.parent name)) data
  | .error .malformed => .error (.refused s!"{name}: invalid YAML")
  | .error e => .error (.yaml e)

variable {m : Type → Type} [Monad m]

/-- Reads the rule set in a file. -/
def loadRuleset (files : FileAccess m) (name : String) : m (Except LintError Ruleset) := do
  if !(← files.isFile name) then return .error (.rulesetNotFound name)
  match ← files.read name with
  | .error e => return .error (.invalidRuleset (e.message name))
  | .ok bytes =>
    match FileAccess.textOf bytes with
    | .error e => return .error (.invalidRuleset (Utf8.inPieces e).message)
    | .ok text => return blame .invalidRuleset (rulesetOfText files.workingDir name text)

/-- What is to be linted: the file of a name, or a text from the standard input. -/
inductive Input where
  | file (name : String)
  | stdin (text : String)

/-- Reads a document. -/
def loadDocument (files : FileAccess m) : Input → m (Except LintError Document)
  | .stdin text => return blame .unreadableDocument (Document.parse text (some Document.stdin))
  | .file name => do
    match ← files.read name with
    | .error e => return .error (.unreadableDocument (e.message name))
    | .ok bytes =>
      match FileAccess.textOf bytes with
      | .error e => return .error (.unreadableDocument e.message)
      | .ok text => return blame .unreadableDocument (Document.parse text (some name))

/-- The result of a run on a document, with its log. -/
def evaluate (workingDir : String) (set : Ruleset) (document : Document) :
    Except LintError (LintResult × List LogEntry) :=
  let inventory := Inventory.ofDocument document none none
  let request : RunRequest :=
    ⟨⟨inventory, .standard, workingDir⟩, set.rules, set.suppressions, set.baseDir⟩
  let report := request.execute
  match report.result with
  | .error failure => .error (.failed failure)
  | .ok diagnostics =>
    .ok ({ diagnostics
           source := document.source
           formats := inventory.formats
           rulesLoaded := set.rules.length
           rulesEvaluated := request.buckets.size
           elapsed := .zero false }, report.log)

/-- Lints an input against the rule set in a file. -/
def lint (files : FileAccess m) (input : Input) (ruleset : String) :
    m (Except LintError (LintResult × List LogEntry)) := do
  match ← loadRuleset files ruleset with
  | .error e => return .error e
  | .ok set =>
    match ← loadDocument files input with
    | .error e => return .error e
    | .ok document => return evaluate files.workingDir set document

end Linter
end DocLint
