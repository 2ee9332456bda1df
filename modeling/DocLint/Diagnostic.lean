import DocLint.Path.Basic
import DocLint.Severity

/-!
# Diagnostics

A problem that a rule found, with the place in the document and in its text. Lines and characters
count from zero.
-/
namespace DocLint

/-- A place in a text. -/
structure Position where
  line : Nat
  character : Nat
  deriving DecidableEq, Inhabited

/-- A stretch of a text. -/
structure Range where
  start : Position
  stop : Position
  deriving DecidableEq, Inhabited

/-- The empty stretch at the start of a text. -/
def Range.empty : Range :=
  ⟨⟨0, 0⟩, ⟨0, 0⟩⟩

/-- A problem found in a document. The code is the name of the rule that found it. -/
structure Diagnostic where
  code : String
  message : String
  path : Path
  severity : Severity
  range : Range
  source : Option String
  deriving DecidableEq, Inhabited

end DocLint
