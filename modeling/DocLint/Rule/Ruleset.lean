import DocLint.Check.Registry
import DocLint.Rule.Basic
import DocLint.Suppression.Declaration
import DocLint.Text.Quoted

/-!
# Rule sets

A rule set is read from a mapping: its version, the formats its rules are for, the rules under their
names and the locations at which rules are suppressed. The first fault that is met is reported, and
later entries of one name take the place of earlier ones.
-/
namespace DocLint

/-- Rules in the order of their names' first appearance, with the declared suppressions. -/
structure Ruleset where
  rules : List Rule
  suppressions : Declarations
  /-- The directory from which the sources of suppressed locations are seen. -/
  baseDir : Option String

namespace Ruleset

/-- A list with an element under a key, in the place of the one that has it already. -/
def put {α : Type} (entries : List (String × α)) (key : String) (value : α) :
    List (String × α) :=
  if entries.any fun e => e.1 == key then
    entries.map fun e => if e.1 == key then (key, value) else e
  else entries ++ [(key, value)]

/-- Texts in order of their characters, each once. -/
def sortedTexts (texts : List String) : List String :=
  texts.eraseDups.mergeSort fun a b => !Scalar.charsBefore b.toList a.toList

/-- The refusal of a rule. -/
def refuse {α : Type} (rule complaint : String) : Except Failure α :=
  .error (.refused s!"Rule '{rule}': {complaint}")

/-- Reads the formats that rules are limited to. `place` names where they stand. -/
def readFormats (place : String) (raw : Option Value) : Except Failure (List Format) :=
  match raw.filter (!·.isNull) with
  | none => .ok []
  | some raw =>
    match raw.items? with
    | none => .error (.refused s!"{place}: 'formats' must be a list")
    | some items =>
      let names := items.map Value.text
      let unknown := names.filter fun n => (Format.ofName? n).isNone
      if unknown.isEmpty then .ok (Format.all.filter fun f => names.contains f.name)
      else
        .error (.refused (s!"{place}: unknown format(s) " ++ Text.quotedList (sortedTexts unknown) ++
          ", must be one of " ++ Text.quotedList (Format.all.map Format.name)))

/-- Reads one expression of a rule. -/
def readExpression (rule : String) (v : Value) : Except Failure String :=
  match v.string? with
  | none => refuse rule "every 'given' expression must be a non-empty string"
  | some written =>
    let trimmed := Text.trim written
    if trimmed.isEmpty then refuse rule "every 'given' expression must be a non-empty string"
    else if trimmed.startsWith "$" then .ok trimmed
    else refuse rule s!"'given' expression '{written}' must start with '$'"

/-- One value or the items of a list. -/
def oneOrMore (v : Value) : List Value :=
  v.items?.getD [v]

/-- Reads the expressions of a rule. -/
def readGiven (rule : String) (raw : Value) : Except Failure (List String) :=
  match oneOrMore raw with
  | [] => refuse rule "'given' must not be empty"
  | expressions => expressions.mapM (readExpression rule)

/-- Reads the options of a check; empty ones count as absent. -/
def readOptions (rule : String) (position : Nat) (raw : Option Value) :
    Except Failure (Option Value) :=
  match raw with
  | none => .ok none
  | some options =>
    match options.entries? with
    | none => refuse rule s!"then[{position}].functionOptions must be a mapping"
    | some entries => .ok (if entries.isEmpty then none else some options.copied)

/-- Reads one action of a rule. -/
def readAction (registry : Registry) (rule : String) (data : Value) (position : Nat) :
    Except Failure Action := do
  if data.entries?.isNone then refuse rule s!"then[{position}] must be a mapping"
  let function := ((data.field? "function").bind Value.string?).getD ""
  if function.isEmpty then refuse rule s!"then[{position}] missing required 'function' field"
  match registry.lookup function with
  | none =>
    refuse rule (s!"unknown function '{function}', must be one of " ++
      Text.quotedList registry.names)
  | some check =>
    let options ← readOptions rule position (data.present? "functionOptions")
    return { function, check, field := (data.present? "field").map Value.text, options }

/-- Whether a severity turns its rule off. -/
def isOff (severity : Value) : Bool :=
  severity.scalar? == some (.bool false) || Text.lowerAscii severity.text == "off"

/-- Reads the severity of a rule; nothing for a rule that is turned off. -/
def readSeverity (rule : String) (raw : Option Value) : Except Failure (Option Severity) :=
  match raw with
  | none => .ok (some .warning)
  | some severity =>
    if isOff severity then .ok none
    else
      match Severity.ofValue severity with
      | .ok s => .ok (some s)
      | .error e => refuse rule e.message

/-- Whether a switch is on: by the truth of its value, and when there is none. -/
def isOn (raw : Option Value) : Bool :=
  (raw.map Value.isTrue).getD true

/-- Reads one rule and compiles it when its expressions do. -/
def readRule (registry : Registry) (defaults : List Format) (name : String) (data : Value) :
    Except Failure Rule := do
  match data.field? "given", data.field? "then" with
  | none, _ => refuse name "missing required 'given' field"
  | some _, none => refuse name "missing required 'then' field"
  | some given, some steps =>
    let actions ← (oneOrMore steps).zipIdx.mapM fun e => readAction registry name e.1 e.2
    let severity ← readSeverity name (data.field? "severity")
    let formats ← match data.field? "formats" with
      | some raw => readFormats s!"Rule '{name}'" (some raw)
      | none => .ok defaults
    let given ← readGiven name given
    return Rule.compile
      { name, given, actions
        description := ((data.field? "description").map Value.text).getD ""
        message := (data.present? "message").map Value.text
        severity := severity.getD .warning
        enabled := severity.isSome && isOn (data.field? "enabled")
        formats
        resolved := isOn (data.field? "resolved")
        documentationUrl := (data.present? "documentationUrl").map Value.text
        strategy := .query }

/-- Reads the rules of a mapping behind those already read. -/
def readRules (registry : Registry) (defaults : List Format) :
    List (String × Rule) → List (Scalar × Value) → Except Failure (List (String × Rule))
  | done, [] => .ok done
  | done, (key, data) :: rest => do
    let name := key.text
    if (Text.trim name).isEmpty then .error (.refused "ruleset: rule names must be non-empty")
    if data.entries?.isNone then .error (.refused s!"ruleset: rule '{name}' must be a mapping")
    let rule ← readRule registry defaults name data
    readRules registry defaults (put done name rule) rest

/-- Reads the locations at which one rule is suppressed. They are kept as they are written, and
refused when they are no locations. -/
def readLocations (workingDir rule : String) (raw : Value) : Except Failure (List String) :=
  match raw.items? with
  | none =>
    .error (.refused s!"ruleset: except entry for '{rule}' must be a list of locations")
  | some items =>
    items.mapM fun item =>
      match Location.parse workingDir none item.text with
      | .ok _ => .ok item.text
      | .error failure =>
        .error (.refused s!"ruleset: except entry for '{rule}': {failure.message}")

/-- Reads the declared suppressions behind those already read. -/
def readDeclarations (workingDir : String) :
    Declarations → List (Scalar × Value) → Except Failure Declarations
  | done, [] => .ok done
  | done, (key, raw) :: rest => do
    let locations ← readLocations workingDir key.text raw
    readDeclarations workingDir (put done key.text locations) rest

/-- Checks the version of a rule set, of which only 1 is known. A list or a mapping is of the wrong
kind for a version. -/
def readVersion (raw : Option Value) : Except Failure Unit :=
  match raw with
  | none => .error (.refused "ruleset: missing required 'version' field")
  | some version =>
    let unsupported := Failure.refused
      s!"ruleset: unsupported version {version.text}, expected one of [1]"
    match version.view with
    | .scalar s => if s.same (.int 1) then .ok () else .error unsupported
    | .set _ => .error unsupported
    | _ => .error .wrongKind

/-- The entries of a mapping under a key, of which there are none when the key is absent. -/
def entriesOf (raw : Option Value) (complaint : String) :
    Except Failure (List (Scalar × Value)) :=
  match raw with
  | none => .ok []
  | some v =>
    match v.entries? with
    | some entries => .ok entries
    | none => .error (.refused complaint)

/-- Reads a rule set whose rules may name the checks of a registry. -/
def ofValue (registry : Registry) (workingDir : String) (baseDir : Option String) (data : Value) :
    Except Failure Ruleset := do
  if data.entries?.isNone then .error (.refused "ruleset must be a YAML mapping")
  readVersion (data.present? "version")
  let defaults ← readFormats "ruleset" (data.field? "formats")
  let entries ← entriesOf (data.field? "rules")
    "ruleset: 'rules' must be a mapping of rule name to definition"
  let rules ← readRules registry defaults [] entries
  let declared ← entriesOf (data.present? "except")
    "ruleset: 'except' must be a mapping of rule name to locations"
  let suppressions ← readDeclarations workingDir [] declared
  return ⟨rules.map (·.2), suppressions, baseDir⟩

end Ruleset
end DocLint
