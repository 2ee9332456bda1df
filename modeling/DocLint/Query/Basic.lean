import DocLint.Failure

/-!
# Path queries

A path query selects parts of a tree by an expression. What it finds before it fails counts, since
matches are used one after the other.
-/
namespace DocLint

/-- What a query selects, in order, and the failure that stopped it, if one did. -/
structure Selection where
  found : List (Path × Value)
  failure? : Option Failure
  deriving Inhabited

/-- A way to select parts of a tree by an expression. -/
abbrev PathQuery := String → Value → Selection

namespace Selection

/-- A selection that is complete. -/
def complete (found : List (Path × Value)) : Selection :=
  ⟨found, none⟩

/-- A selection that failed before anything was found. -/
def failed (failure : Failure) : Selection :=
  ⟨[], some failure⟩

/-- All matches, unless the query failed. -/
def all (s : Selection) : Except Failure (List (Path × Value)) :=
  match s.failure? with
  | some failure => .error failure
  | none => .ok s.found

end Selection
end DocLint
