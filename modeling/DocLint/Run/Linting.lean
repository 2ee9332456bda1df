import DocLint.Diagnostic
import DocLint.Run.Message
import DocLint.Run.Target
import DocLint.Run.Walk
import DocLint.Suppression.Location

/-!
# Linting a node

The actions of a rule are run on a node one after the other, and each on all its targets. What this
leaves is a trace: the problems recorded, the checks that answer later and the failure that ended it.
-/
namespace DocLint

/-- What the checks of a run share: the document, the path query, the directory from which names of
sources are seen. -/
structure RunContext where
  inventory : Inventory
  query : PathQuery
  workingDir : String

/-- A diagnostic with the path of the node that was linted when it was found. -/
structure Entry where
  node : Path
  diagnostic : Diagnostic
  deriving DecidableEq, Inhabited

/-- A check that answers later: after so many turns it records problems or fails. -/
structure Pending where
  turns : Nat
  settled : Except Failure (List Entry)

namespace Pending

/-- The problems that a check records in the end. -/
def recorded (p : Pending) : List Entry :=
  match p.settled with
  | .ok entries => entries
  | .error _ => []

/-- The failure of a check. -/
def failure? (p : Pending) : Option Failure :=
  match p.settled with
  | .ok _ => none
  | .error failure => some failure

end Pending

/-- What linting leaves. -/
structure Trace where
  entries : List Entry
  pending : List Pending
  failure? : Option Failure

namespace Trace

/-- The trace of nothing. -/
def empty : Trace :=
  ⟨[], [], none⟩

/-- The trace of a failure. -/
def failed (failure : Failure) : Trace :=
  ⟨[], [], some failure⟩

/-- One trace followed by another, which is not reached when the first ends in a failure. -/
def andThen (a b : Trace) : Trace :=
  match a.failure? with
  | some _ => a
  | none => ⟨a.entries ++ b.entries, a.pending ++ b.pending, b.failure?⟩

/-- Traces one after the other. -/
def inTurn (traces : List Trace) : Trace :=
  traces.foldr andThen empty

end Trace

namespace RunContext

/-- Whether a problem that was found for a node is suppressed: at the path of the node or at its
own. -/
def suppresses (c : RunContext) (locations : List Location) (nodePath path : Path) : Bool :=
  let source := c.inventory.document.source
  Location.anyCovers c.workingDir locations source nodePath ||
    Location.anyCovers c.workingDir locations source path

/-- The diagnostic of a finding below a target. -/
def diagnose (c : RunContext) (rule : Rule) (target : Path × Value) (finding : Finding) :
    Except Failure Diagnostic := do
  let path := target.1 ++ finding.path
  let range ← c.inventory.document.rangeAt path
  return { code := rule.name
           message := rule.messageFor finding path target.2
           path
           severity := rule.severity
           range
           source := c.inventory.document.source }

/-- What is recorded of the findings below a target: those that are not suppressed. -/
def record (c : RunContext) (rule : Rule) (locations : List Location) (nodePath : Path)
    (target : Path × Value) (answer : Answer) : Except Failure (List Entry) :=
  let kept := (answer.getD []).filter fun finding =>
    !c.suppresses locations nodePath (target.1 ++ finding.path)
  kept.mapM fun finding => (c.diagnose rule target finding).map (Entry.mk nodePath)

/-- Runs the check of an action on one target. -/
def lintTarget (c : RunContext) (rule : Rule) (locations : List Location) (nodePath : Path)
    (action : Action) (target : Path × Value) : Trace :=
  let options := action.options.getD (Value.ofScalar .null)
  let failure (cause : Failure) : Failure := .check rule.name action.function target.1 cause
  match action.check target.2 options ⟨rule.name, target.1, c.inventory⟩ with
  | .failed cause => .failed (failure cause)
  | .answered answer =>
    match c.record rule locations nodePath target answer with
    | .ok entries => ⟨entries, [], none⟩
    | .error e => .failed e
  | .later turns result =>
    let settled := match result with
      | .ok answer => c.record rule locations nodePath target answer
      | .error cause => .error (failure cause)
    ⟨[], [⟨turns, settled⟩], none⟩

/-- Runs an action on all its targets. -/
def lintAction (c : RunContext) (rule : Rule) (locations : List Location) (node : GivenNode)
    (action : Action) : Trace :=
  match Target.ofField c.query node.documentPath node.value action.field with
  | .error failure => .failed failure
  | .ok targets =>
    .inTurn (targets.map (c.lintTarget rule locations node.documentPath action))

/-- Runs all actions of a rule on a node. -/
def lintNode (c : RunContext) (rule : Rule) (locations : List Location) (node : GivenNode) : Trace :=
  .inTurn (rule.actions.map (c.lintAction rule locations node))

end RunContext
end DocLint
