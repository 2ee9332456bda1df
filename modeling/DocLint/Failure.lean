import DocLint.Path.Pointer
import DocLint.Query.Error
import DocLint.Text.Utf8
import DocLint.Yaml.Error

/-!
# Failures

What can go wrong while documents are read and rules are applied. A failure that says that the input
is not acceptable is a refusal; those are reported to whoever wrote the input. A failure of a check
keeps the failure that caused it.
-/
namespace DocLint

/-- Why an operation did not come to its end. -/
inductive Failure where
  /-- The input is not acceptable, for the given reason. -/
  | refused (reason : String)
  /-- Something outside the input went wrong, for the given reason. -/
  | aborted (reason : String)
  /-- A value is of a kind for which an operation is not defined. -/
  | wrongKind
  | pattern (e : PatternError)
  | yaml (e : YamlError)
  | query (e : QueryError)
  | encoding (e : Utf8Error)
  /-- A text closes a tag that is not open. -/
  | markup
  /-- A rule was matched while nobody listened to it. -/
  | unattached (rule : String)
  /-- A check of a rule failed at a place. -/
  | check (rule function : String) (path : Path) (cause : Failure)
  deriving Inhabited

/-- The text of the error of a pattern that asks for two alphabets. -/
def PatternError.message? : PatternError → Option String
  | .mixedAlphabets => some "ASCII and UNICODE flags are incompatible"
  | _ => none

namespace Failure

/-- What is wrong, for the failures that say it. -/
def reason? : Failure → Option String
  | .refused reason => some reason
  | .aborted reason => some reason
  | .wrongKind => none
  | .pattern e => e.message?
  | .yaml e => e.message?
  | .query e => e.message?
  | .encoding e => some e.message
  | .markup => none
  | .unattached rule => some s!"Rule '{rule}' was matched before a callback was attached"
  | .check _ _ _ _ => none

/-- Whether a failure says that the input is not acceptable. -/
def isRefusal : Failure → Bool
  | .refused _ => true
  | .pattern e => e.message?.isSome
  | .yaml e => e.message?.isSome
  | .query e => e.message?.isSome
  | .encoding _ => true
  | _ => false

/-- The text of a failure, in which those that say nothing are shown as described. -/
def messageWith (describe : Failure → String) : Failure → String
  | .check rule function path cause =>
    s!"Rule '{rule}': function '{function}' failed at {path.pointer}: " ++
      cause.messageWith describe
  | failure => failure.reason?.getD (describe failure)

/-- A few words for a failure that says nothing itself. -/
def summary : Failure → String
  | .wrongKind => "a value is of the wrong kind"
  | .pattern .repetitionTooLarge => "the repetition number is too large"
  | .pattern _ => "the pattern is malformed"
  | .yaml _ => "the document is malformed"
  | .query _ => "the path query cannot be answered"
  | .markup => "a text closes a tag that is not open"
  | _ => "failed"

/-- The text of a failure. -/
def message (f : Failure) : String :=
  f.messageWith summary

end Failure
end DocLint
