import DocLint.Log
import DocLint.Run.Linting
import DocLint.Suppression.Declaration

/-!
# Ledgers

The state of one run: the diagnostics recorded so far, the checks that answer later and the nodes that
were linted. In which order those checks answer is left to a `Schedule`.
-/
namespace DocLint

/-- A node that was linted for a rule, with what that left. -/
structure Visit where
  rule : Rule
  node : GivenNode
  trace : Trace

/-- An order in which checks that answer later may do so. -/
structure Schedule where
  order : List Pending → List Pending
  perm : ∀ checks, (order checks).Perm checks

/-- By their turns, and by their start among equal ones. -/
def Schedule.byTurns : Schedule where
  order checks := checks.mergeSort fun a b => a.turns ≤ b.turns
  perm checks := List.mergeSort_perm checks _

/-- The state of a run. -/
structure Ledger where
  context : RunContext
  suppressions : Suppressions
  entries : List Entry
  /-- All checks that answer later, in the order in which they were started. -/
  pending : List Pending
  /-- How many of them have answered. -/
  settled : Nat
  /-- The nodes that were linted, in order. -/
  visits : List Visit

namespace Ledger

/-- The state at the start of a run. -/
def start (context : RunContext) (suppressions : Suppressions) : Ledger :=
  ⟨context, suppressions, [], [], 0, []⟩

/-- The diagnostics recorded so far. -/
def diagnostics (l : Ledger) : List Diagnostic :=
  l.entries.map Entry.diagnostic

/-- The locations at which a rule is suppressed. -/
def locationsOf (l : Ledger) (rule : String) : List Location :=
  (l.suppressions.lookup rule).getD []

/-- The state after a visit. -/
def after (l : Ledger) (v : Visit) : Ledger :=
  { l with entries := l.entries ++ v.trace.entries
           pending := l.pending ++ v.trace.pending
           visits := l.visits ++ [v] }

/-- Lints a node for a rule. -/
def lint (l : Ledger) (rule : Rule) (locations : List Location) (node : GivenNode) :
    Ledger × Option Failure :=
  let visit : Visit := ⟨rule, node, l.context.lintNode rule locations node⟩
  (l.after visit, visit.trace.failure?)

/-- Lints nodes one after the other until one fails. A path that was seen before is skipped. -/
def lintNew (rule : Rule) (locations : List Location) :
    Ledger → List Path → List GivenNode → Ledger × List Path × Option Failure
  | l, seen, [] => (l, seen, none)
  | l, seen, node :: rest =>
    if seen.any node.documentPath.same then lintNew rule locations l seen rest
    else
      let seen := node.documentPath :: seen
      match l.lint rule locations node with
      | (l, some failure) => (l, seen, some failure)
      | (l, none) => lintNew rule locations l seen rest

/-- What an expression of a rule selects of a tree. The root needs no query. -/
def selection (l : Ledger) (tree : Value) (expression : String) : Selection :=
  if expression == "$" then .complete [([rootMark], tree)] else l.context.query expression tree

/-- Lints what expressions select, one after the other until one fails. -/
def lintSelections (rule : Rule) (locations : List Location) (tree : Value) :
    Ledger → List Path → List String → Ledger × Option Failure
  | l, _, [] => (l, none)
  | l, seen, expression :: rest =>
    let selection := l.selection tree expression
    match lintNew rule locations l seen (selection.found.map fun e => ⟨e.1, e.2⟩) with
    | (l, _, some failure) => (l, some failure)
    | (l, seen, none) =>
      match selection.failure? with
      | some failure => (l, some failure)
      | none => lintSelections rule locations tree l seen rest

/-- Evaluates a rule through path queries; every node that is selected is linted once. -/
def lintByQuery (l : Ledger) (rule : Rule) (locations : List Location) : Ledger × Option Failure :=
  lintSelections rule locations (l.context.inventory.tree rule.resolved) l [] rule.given

/-- Evaluates rules through path queries. A rule that fails is noted and the others go on. -/
def lintAllByQuery : Ledger → List Rule → Ledger × List LogEntry
  | l, [] => (l, [])
  | l, rule :: rest =>
    let (l, failure?) := l.lintByQuery rule (l.locationsOf rule.name)
    let (l, log) := lintAllByQuery l rest
    (l, (failure?.map (LogEntry.ruleFailed rule.name)).toList ++ log)

/-- The checks that have not answered. -/
def outstanding (l : Ledger) : List Pending :=
  l.pending.drop l.settled

/-- The state after all checks have answered, the outstanding ones in the given order. -/
def settleIn (l : Ledger) (order : List Pending) : Ledger :=
  { l with entries := l.entries ++ order.flatMap Pending.recorded
           settled := l.pending.length }

/-- Waits for all checks, which answer by a schedule, and notes those that failed, in the order of
their start. -/
def settleBy (l : Ledger) (schedule : Schedule) : Ledger × List LogEntry :=
  (l.settleIn (schedule.order l.outstanding),
    l.pending.filterMap fun p => p.failure?.map LogEntry.laterCheckFailed)

/-- Waits for all checks, each answering in its turn. -/
def settle (l : Ledger) : Ledger × List LogEntry :=
  l.settleBy .byTurns

end Ledger
end DocLint
