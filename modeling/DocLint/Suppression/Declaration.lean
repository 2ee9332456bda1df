import DocLint.Log
import DocLint.Suppression.Location

/-!
# Declared suppressions

A rule set declares suppressed locations under the names of its rules. `pivot` reads them for the rules
that exist.
-/
namespace DocLint

/-- Locations as they are written, under the names of rules. -/
abbrev Declarations := List (String × List String)

/-- Locations under the names of rules. -/
abbrev Suppressions := List (String × List Location)

namespace Declarations

/-- Reads the locations of the named rules. Declarations for other names are noted and left out, and a
rule without locations is left out too. -/
def pivot (workingDir : String) (base : Option String) (rules : List String) :
    Declarations → List LogEntry × Except Failure Suppressions
  | [] => ([], .ok [])
  | (rule, written) :: rest =>
    if rules.contains rule then
      match written.mapM (Location.parse workingDir base) with
      | .error failure => ([], .error failure)
      | .ok locations =>
        let (log, others) := pivot workingDir base rules rest
        (log, others.map fun others =>
          if locations.isEmpty then others else (rule, locations) :: others)
    else
      let (log, others) := pivot workingDir base rules rest
      (.unknownRule rule :: log, others)

end Declarations
end DocLint
