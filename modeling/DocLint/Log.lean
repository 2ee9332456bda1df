import DocLint.Failure

/-!
# Log entries

What a run and the reading of settings note beside their results.
-/
namespace DocLint

/-- How important an entry is. -/
inductive LogLevel where
  | debug
  | warning
  | error
  deriving DecidableEq, Inhabited

/-- Something worth noting. -/
inductive LogEntry where
  /-- Suppressions are declared for a rule that does not exist. -/
  | unknownRule (rule : String)
  /-- A run starts with so many rules of each kind. -/
  | running (resolved unresolved plain : Nat)
  /-- A listener of a rule failed at a place. -/
  | listenerFailed (rule : String) (path : Path) (cause : Failure)
  /-- A tree was walked for a number of rules. -/
  | traversed (visited rules : Nat)
  /-- A rule was given up. -/
  | ruleFailed (rule : String) (cause : Failure)
  /-- A check that answers later failed. -/
  | laterCheckFailed (cause : Failure)
  | unreadableSettings (file : String)
  | unknownOutputFormat (shown file : String)
  | invalidFailSeverity (shown file : String)

namespace LogEntry

/-- How important an entry is. -/
def level : LogEntry → LogLevel
  | .running _ _ _ => .debug
  | .traversed _ _ => .debug
  | .listenerFailed _ _ _ => .error
  | .ruleFailed _ _ => .error
  | .laterCheckFailed _ => .error
  | _ => .warning

/-- The failure that an entry is about. -/
def cause? : LogEntry → Option Failure
  | .listenerFailed _ _ cause => some cause
  | .ruleFailed _ cause => some cause
  | .laterCheckFailed cause => some cause
  | _ => none

/-- The text of an entry, in which failures that say nothing are shown as described. -/
def messageWith (describe : Failure → String) : LogEntry → String
  | .unknownRule rule => s!"Ignoring except entries for unknown rule '{rule}'"
  | .running resolved unresolved plain =>
    s!"Running {resolved + unresolved + plain} rule(s): {resolved} precompiled resolved, " ++
      s!"{unresolved} precompiled unresolved, {plain} plain"
  | .listenerFailed rule path _ =>
    s!"Rule '{rule}' failed on {path.pointer}, continuing traversal"
  | .traversed visited rules => s!"Traversed {visited} node(s) for {rules} precompiled rule(s)"
  | .ruleFailed rule _ => s!"Rule '{rule}' failed, continuing with remaining rules"
  | .laterCheckFailed cause => "Asynchronous check failed: " ++ cause.messageWith describe
  | .unreadableSettings file => s!"Failed to read {file}, using defaults"
  | .unknownOutputFormat shown file => s!"Ignoring unknown output format '{shown}' in {file}"
  | .invalidFailSeverity shown file => s!"Ignoring invalid fail_severity '{shown}' in {file}"

end LogEntry
end DocLint
