import DocLint.Check.Choice
import DocLint.Check.Ordering
import DocLint.Check.Presence
import DocLint.Check.Spelling

/-!
# The registry of checks

The checks that rules can name.
-/
namespace DocLint

/-- Checks under their names. -/
abbrev Registry := List (String × Check)

namespace Registry

/-- The checks that are always there. -/
def core : Registry :=
  [("alphabetical", Check.alphabetical),
    ("casing", Check.casing),
    ("defined", Check.defined),
    ("enumeration", Check.enumeration),
    ("falsy", Check.falsy),
    ("length", Check.length),
    ("pattern", Check.pattern),
    ("truthy", Check.truthy),
    ("typedEnum", Check.typedEnum),
    ("typed_enum", Check.typedEnum),
    ("undefined", Check.undefined)]

/-- The names of the checks in alphabetical order. -/
def names (r : Registry) : List String :=
  (r.map (·.1)).mergeSort fun a b => !Scalar.charsBefore b.toList a.toList

end Registry
end DocLint
