import DocLint.Text.Digit
import DocLint.Text.Lines
import DocLint.Value.Text

/-!
# Document formats

The formats of interface descriptions that a document can declare by its version fields. A version is
the text of its field, and a line feed at its end is overlooked.
-/
namespace DocLint

/-- A format that rules can be limited to. -/
inductive Format where
  | asyncapi2
  | jsonSchema
  | oas2
  | oas3
  | oas30
  | oas31
  deriving DecidableEq, Inhabited

namespace Format

/-- All formats in the alphabetical order of their names. -/
def all : List Format :=
  [.asyncapi2, .jsonSchema, .oas2, .oas3, .oas30, .oas31]

/-- The name of a format. -/
def name : Format → String
  | .asyncapi2 => "asyncapi2"
  | .jsonSchema => "json-schema"
  | .oas2 => "oas2"
  | .oas3 => "oas3"
  | .oas30 => "oas3.0"
  | .oas31 => "oas3.1"

/-- Decimal digits, at least one. -/
def isNumber (cs : List Char) : Bool :=
  !cs.isEmpty && cs.all Text.isDecimal

/-- Nothing, or a dot and a number. -/
def isPatchPart : List Char → Bool
  | [] => true
  | '.' :: rest => isNumber rest
  | _ => false

/-- A version of three parts at most, of which the first two are given. -/
def isMinorVersion (minor : Char) (cs : List Char) : Bool :=
  match cs with
  | '3' :: '.' :: c :: rest => c == minor && isPatchPart rest
  | _ => false

/-- A version of two or three parts, of which the first is `2`. -/
def isSecondVersion (cs : List Char) : Bool :=
  match cs with
  | '2' :: '.' :: rest =>
    !(rest.takeWhile Text.isDecimal).isEmpty && isPatchPart (rest.dropWhile Text.isDecimal)
  | _ => false

/-- Whether some characters occur in others, next to each other. -/
def occursIn (part : List Char) : List Char → Bool
  | [] => part.isEmpty
  | c :: rest => part.isPrefixOf (c :: rest) || occursIn part rest

/-- The characters of a version field, unless it is absent or null. -/
def version? (document : Value) (field : String) : Option (List Char) :=
  (document.present? field).map fun v => v.text.toList

/-- Whether a version field is present and its characters, up to a final line feed, are accepted. -/
def versionIs (document : Value) (field : String) (accepted : List Char → Bool) : Bool :=
  match version? document field with
  | some cs => accepted (Text.withoutFinalNewline cs)
  | none => false

/-- Whether a document declares a format. -/
def declaredBy (document : Value) : Format → Bool
  | .oas2 =>
    match version? document "swagger" with
    | some cs => cs == ['2', '.', '0'] || cs == ['2']
    | none => false
  | .oas30 => versionIs document "openapi" (isMinorVersion '0')
  | .oas31 => versionIs document "openapi" (isMinorVersion '1')
  | .oas3 =>
    versionIs document "openapi" (isMinorVersion '0') ||
      versionIs document "openapi" (isMinorVersion '1')
  | .asyncapi2 => versionIs document "asyncapi" isSecondVersion
  | .jsonSchema =>
    match version? document "$schema" with
    | some cs => occursIn "json-schema.org".toList cs
    | none => false

/-- The formats that a document declares, in alphabetical order. -/
def detect (document : Value) : List Format :=
  all.filter (declaredBy document)

/-- The format with a name. -/
def ofName? (n : String) : Option Format :=
  all.find? fun f => f.name == n

end Format
end DocLint
