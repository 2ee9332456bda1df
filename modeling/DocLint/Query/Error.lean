import DocLint.Pattern.Syntax

/-!
# Errors of queries

Why a query over a tree cannot be read or answered.
-/
namespace DocLint

/-- Why a query has no answer, or none beyond what it has found. -/
inductive QueryError where
  | malformed
  /-- The root was asked for what it is inside of. -/
  | noParent
  /-- All that is below a container inside itself was asked for. -/
  | endless
  /-- A match is a computed value, which stands nowhere in the tree. -/
  | notAPlace (operator : String)
  /-- A filter compares with a text that is no pattern. -/
  | pattern (e : PatternError)
  deriving DecidableEq

/-- The text of the error of a match that stands nowhere. -/
def QueryError.message? : QueryError → Option String
  | .notAPlace operator => some s!"Unexpected path element in match: {operator}()"
  | _ => none

end DocLint
