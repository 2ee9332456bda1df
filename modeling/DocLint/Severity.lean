import DocLint.Text.Blank
import DocLint.Text.Case
import DocLint.Value.Text

/-!
# Severities

How grave a problem is. A severity is read from its rank or from one of its names, in any case and
with blanks around it.
-/
namespace DocLint

/-- How grave a problem is, the gravest first. -/
inductive Severity where
  | error
  | warning
  | information
  | hint
  deriving DecidableEq, Inhabited

/-- A value that names no severity. -/
inductive SeverityError where
  | unknownRank (rank : Int)
  | unknownName (shown : String)
  deriving DecidableEq

namespace Severity

/-- All severities, the gravest first. -/
def all : List Severity :=
  [.error, .warning, .information, .hint]

/-- The rank of a severity; graver ones have lower ranks. -/
def rank : Severity → Nat
  | .error => 0
  | .warning => 1
  | .information => 2
  | .hint => 3

/-- The short name that rule sets and reports use. -/
def label : Severity → String
  | .error => "error"
  | .warning => "warn"
  | .information => "info"
  | .hint => "hint"

/-- The names under which a rule set may give a severity, in alphabetical order. -/
def names : List (String × Severity) :=
  [("error", .error), ("hint", .hint), ("info", .information), ("information", .information),
    ("warn", .warning), ("warning", .warning)]

/-- The severity with a rank. -/
def ofRank? (rank : Int) : Option Severity :=
  all.find? fun s => (s.rank : Int) == rank

/-- The severity with a name. -/
def ofName? (name : String) : Option Severity :=
  names.lookup (Text.lowerAscii (Text.trim name))

/-- The severity that a value gives: an integer by rank, anything else by the name that its text
is. -/
def ofValue (v : Value) : Except SeverityError Severity :=
  match v.scalar? with
  | some (.int rank) =>
    match ofRank? rank with
    | some s => .ok s
    | none => .error (.unknownRank rank)
  | _ =>
    match ofName? v.text with
    | some s => .ok s
    | none => .error (.unknownName v.text)

/-- Whether a severity is as grave as a threshold. -/
def reaches (s threshold : Severity) : Bool :=
  s.rank ≤ threshold.rank

end Severity

/-- What is wrong with a severity. -/
def SeverityError.message : SeverityError → String
  | .unknownRank rank => s!"{rank} is not a valid Severity"
  | .unknownName shown =>
    s!"invalid severity '{shown}', must be one of " ++ Text.quotedList (Severity.names.map (·.1))

end DocLint
