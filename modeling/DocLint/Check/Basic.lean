import DocLint.Document.Inventory

/-!
# Checks

A check looks at one value and reports what is wrong with it. Its answer may come later, after a number
of turns of whatever drives the run.
-/
namespace DocLint

/-- A problem that a check found, at a path below the value that it looked at. -/
structure Finding where
  message : String
  path : Path
  deriving DecidableEq, Inhabited

/-- The answer of a check. Some checks do not answer at all when there is nothing to report. -/
abbrev Answer := Option (List Finding)

/-- What a check gives back. -/
inductive Outcome where
  | answered (answer : Answer)
  | failed (cause : Failure)
  /-- The answer or the failure comes after so many turns. -/
  | later (turns : Nat) (result : Except Failure Answer)

/-- What a check knows besides the value: the rule that it is run for, the path of the value and the
document. -/
structure CheckContext where
  rule : String
  path : Path
  inventory : Inventory

/-- A check of a value, with the options that its rule gives. -/
abbrev Check := Value → Value → CheckContext → Outcome

namespace Outcome

/-- No problem. -/
def fine : Outcome :=
  .answered none

/-- One problem with the value itself. -/
def problem (message : String) : Outcome :=
  .answered (some [⟨message, []⟩])

end Outcome

namespace CheckContext

/-- How messages call the value: by the last segment of its path. -/
def targetName (c : CheckContext) : String :=
  match c.path.getLast? with
  | some segment => s!"\"{segment.text}\" property"
  | none => "The document"

end CheckContext
end DocLint
