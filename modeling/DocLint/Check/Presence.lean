import DocLint.Check.Basic

/-!
# Checks of presence

Whether a value is there, and whether it counts as true. Every mapping and every list counts as true,
also an empty one.
-/
namespace DocLint.Check

/-- Whether a value counts as true here. -/
def isTruthy (v : Value) : Bool :=
  match v.view with
  | .list _ => true
  | .mapping _ => true
  | _ => v.isTrue

/-- The value must count as true. -/
def truthy : Check := fun v _ c =>
  if isTruthy v then .fine else .problem (c.targetName ++ " must be truthy")

/-- The value must not count as true. -/
def falsy : Check := fun v _ c =>
  if isTruthy v then .problem (c.targetName ++ " must be falsy") else .fine

/-- The value must be there. -/
def defined : Check := fun v _ c =>
  if v.isMissing then .problem (c.targetName ++ " must be defined") else .fine

/-- The value must not be there. -/
def undefined : Check := fun v _ c =>
  if v.isMissing then .fine else .problem (c.targetName ++ " must be undefined")

end DocLint.Check
