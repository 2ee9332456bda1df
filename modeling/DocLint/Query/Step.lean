import DocLint.Query.Token
import DocLint.Value.Scalar

/-!
# Steps of path queries

A query is a list of steps, each of which leads from one place of a tree to others. A filter is a step
with a condition, and conditions look at places through queries of their own.
-/
namespace DocLint.Query

/-- A value that is computed from a place and stands nowhere in the tree. -/
inductive Computed where
  | length
  | keys
  | path
  deriving DecidableEq, Inhabited

mutual

/-- A step of a query. -/
inductive Step where
  | root
  | this
  | parent
  /-- To the values under textual keys, in the given order. -/
  | names (keys : List String)
  /-- To all parts. -/
  | any
  /-- To the items at positions, negative ones counted from the end. -/
  | items (positions : List Int)
  /-- To the items from one position up to another in equal steps. -/
  | slice (start stop stride : Option Int)
  /-- To the parts for which a condition holds. -/
  | filter (c : Condition)
  /-- To the place itself and everything below it. -/
  | descend
  | computed (c : Computed)

/-- A condition on a place. -/
inductive Condition where
  /-- A query leads somewhere. -/
  | found (steps : List Step)
  | compare (c : Comparison) (left right : Operand)
  | both (a b : Condition)
  | either (a b : Condition)
  | negated (a : Condition)

/-- What a condition compares. -/
inductive Operand where
  | literal (s : Scalar)
  | query (steps : List Step)

end

end DocLint.Query
