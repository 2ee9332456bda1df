import DocLint.Calendar
import DocLint.Number.Integer
import DocLint.Text.Quoted

/-!
# Errors of YAML texts

Most faults of a text are faults of its structure, which are not told apart. The others come from
scalars whose text their tag cannot be read from.
-/
namespace DocLint

/-- Why a text cannot be read as one YAML document. -/
inductive YamlError where
  /-- The text is not a stream of one document, or a node cannot be turned into a value. -/
  | malformed
  /-- A date or time has a field out of range. -/
  | calendar (e : CalendarError)
  /-- An integer is not written in its base. -/
  | notInteger (base : Nat) (shown : String)
  /-- A decimal integer has more digits than are read. -/
  | tooManyDigits (count : Nat)
  /-- A floating-point number is not written as one. -/
  | notNumber (shown : String)
  /-- A number has no characters. -/
  | emptyNumber
  /-- A truth value has none of the words for one. -/
  | notTruthValue
  /-- A time is not written as one. -/
  | notTimestamp
  /-- A time is not written at all, but stands under the key `=` of a mapping. -/
  | notText
  /-- A number in parts below sixty has a part that counts more often than any number is large. -/
  | beyondNumbers
  /-- The text of a mapping is under its key `=` and there is the mapping itself again. -/
  | endless
  /-- An escape names a character beyond the last one. -/
  | beyondUnicode
  /-- An escape names a number too large for any character. -/
  | beyondCharacters
  deriving DecidableEq

/-- The text of the errors that come from a scalar with an impossible value. -/
def YamlError.message? : YamlError → Option String
  | .calendar e => some e.message
  | .notInteger base shown => some s!"invalid literal for int() with base {base}: {Text.quoted shown}"
  | .tooManyDigits count => some (Number.tooManyDigits count)
  | .notNumber shown => some s!"could not convert string to float: {Text.quoted shown}"
  | .beyondUnicode => some "chr() arg not in range(0x110000)"
  | _ => none

end DocLint
