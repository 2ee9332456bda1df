import DocLint.Run.Switchboard

/-!
# Runs

A run applies the rules that are admitted for a document: those of the shared walks through the
switchboard, the others through path queries, and then it waits for the checks that answer later.
Suppressions need the place of the document; for a stream they are not applied, and if there are any
one diagnostic for the whole document says so.
-/
namespace DocLint

/-- What a run is asked to do. -/
structure RunRequest where
  context : RunContext
  rules : List Rule
  declarations : Declarations
  /-- The directory from which the sources of suppressed locations are seen. -/
  baseDir : Option String

/-- What a run comes to: the ledger that it leaves, and its log. -/
structure RunReport where
  outcome : Except Failure Ledger
  log : List LogEntry

/-- The diagnostics of a run. -/
def RunReport.result (r : RunReport) : Except Failure (List Diagnostic) :=
  r.outcome.map Ledger.diagnostics

namespace RunRequest

/-- The diagnostic of a stream whose suppressions are not applied. -/
def streamWarning (d : Document) : Diagnostic where
  code := "except-but-stdin"
  message := "The ruleset contains `except` entries. " ++
    "However, they cannot be enforced when the input is passed through stdin."
  path := []
  severity := .warning
  range := d.fullRange
  source := d.source

/-- The state at the start of a run, with the suppressions read. -/
def opening (q : RunRequest) : List LogEntry × Except Failure Ledger :=
  let document := q.context.inventory.document
  if document.isStream then
    let ledger := Ledger.start q.context []
    ([], .ok (if q.declarations.isEmpty then ledger
      else { ledger with entries := [⟨[], streamWarning document⟩] }))
  else
    let (log, suppressions) :=
      q.declarations.pivot q.context.workingDir q.baseDir (q.rules.map Rule.name)
    (log, suppressions.map (Ledger.start q.context))

/-- The rules that take part. -/
def buckets (q : RunRequest) : RuleBuckets :=
  .select q.rules q.context.inventory.formats

end RunRequest

namespace Switchboard

/-- Adds a run, whose number is the number of runs before it. -/
def addRun (b : Switchboard) (ledger : Ledger) : Switchboard :=
  { b with runs := b.runs.push ledger }

/-- Applies the rules of the shared walks for the run with a number. -/
def walkFor (b : Switchboard) (run : Nat) (inventory : Inventory) (rules : RuleBuckets) :
    Switchboard × List LogEntry :=
  let b := b.attachAll rules.precompiled (.lint run)
  let first := b.traverse inventory.resolved rules.resolved
  let second := first.board.traverse inventory.document.data rules.unresolved
  (second.board, first.log ++ second.log)

/-- Evaluates the other rules for a ledger and waits for the checks that answer later. -/
def finish (schedule : Schedule) (ledger : Ledger) (rules : RuleBuckets) :
    Ledger × List LogEntry :=
  let (ledger, queried) := ledger.lintAllByQuery rules.plain
  let (ledger, awaited) := ledger.settleBy schedule
  (ledger, queried ++ awaited)

/-- Runs a request, the checks that answer later doing so by a schedule. -/
def runBy (b : Switchboard) (schedule : Schedule) (q : RunRequest) : Switchboard × RunReport :=
  match q.opening with
  | (log, .error failure) => (b, ⟨.error failure, log⟩)
  | (log, .ok ledger) =>
    let rules := q.buckets
    let number := b.runs.size
    let started := LogEntry.running rules.resolved.length rules.unresolved.length rules.plain.length
    let (b, walked) := (b.addRun ledger).walkFor number q.context.inventory rules
    let (ledger, finished) := finish schedule ((b.runs[number]?).getD ledger) rules
    let b := { b with runs := b.runs.setIfInBounds number ledger }
    (b, ⟨.ok ledger, log ++ started :: walked ++ finished⟩)

/-- Runs a request, each check that answers later doing so in its turn. -/
def run (b : Switchboard) (q : RunRequest) : Switchboard × RunReport :=
  b.runBy .byTurns q

end Switchboard

/-- The report of a run whose rules nobody else uses. -/
def RunRequest.execute (q : RunRequest) : RunReport :=
  (Switchboard.empty.run q).2

end DocLint
