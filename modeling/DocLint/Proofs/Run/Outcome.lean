import DocLint.Proofs.Run.Plan

/-!
# What a run comes to

A run whose declarations are legible ends with a ledger, and that ledger is known without the
switchboard: it is `RunRequest.left`, the opening state after the visits of `RunRequest.plan` and after
the checks that answer later (`runBy_outcome`). Other runs and listeners on the switchboard and failures
of rules leave no mark on it.
-/
namespace DocLint

namespace Switchboard

/-- Attaching a listener to rules makes it theirs and leaves the others theirs. -/
theorem lookup_attachAll (b : Switchboard) (rules : List Rule) (listener : Listener) (name : String) :
    (b.attachAll rules listener).listeners.lookup name =
      if name ∈ rules.map Rule.name then some listener else b.listeners.lookup name := by
  induction rules generalizing b with
  | nil => rfl
  | cons rule rest ih =>
    have first : (b.attachAll (rule :: rest) listener) =
        (b.attach rule.name listener).attachAll rest listener := rfl
    rw [first, ih]
    by_cases later : name ∈ rest.map Rule.name
    · simp [later]
    · by_cases own : name = rule.name
      · simp [attach, own]
      · have unlike : (name == rule.name) = false := by simpa using own
        simp [attach, later, own, List.lookup_cons, unlike]

/-- Attaching listeners concerns the listeners only. -/
theorem runs_attachAll (b : Switchboard) (rules : List Rule) (listener : Listener) :
    (b.attachAll rules listener).runs = b.runs := by
  induction rules generalizing b with
  | nil => rfl
  | cons rule rest ih => exact ih (b.attach rule.name listener)

variable {b : Switchboard} {run : Nat} {l : Ledger}

/-- A notice that reaches a run is a visit of that run. -/
theorem notify_runs {rule : Rule} (node : GivenNode)
    (attached : b.listeners.lookup rule.name = some (.lint run)) (present : b.runs[run]? = some l) :
    (b.notify rule node).1.runs[run]? = some (l.afterAll [l.visit rule node]) := by
  obtain ⟨bound, rfl⟩ := Array.getElem?_eq_some_iff.mp present
  simp [notify, attached, lintFor, Ledger.lint_eq, bound, Ledger.visit]

/-- Notices that reach a run are visits of that run, in their order and whichever of them fail. -/
theorem deliver_runs (notices : List (Rule × GivenNode))
    (attached : ∀ t ∈ notices, b.listeners.lookup t.1.name = some (.lint run))
    (present : b.runs[run]? = some l) :
    (b.deliver notices).1.runs[run]? =
      some (l.afterAll (notices.map fun t => l.visit t.1 t.2)) := by
  induction notices generalizing b l with
  | nil => rw [List.map_nil, Ledger.afterAll_nil, deliver, present]
  | cons notice rest ih =>
    obtain ⟨rule, node⟩ := notice
    have told := notify_runs node (attached (rule, node) List.mem_cons_self) present
    have kept := (notify_effects b rule node).1
    have others := ih (fun t member => by
      rw [kept]
      exact attached t (List.mem_cons_of_mem _ member)) told
    rw [List.map_cons, Ledger.afterAll_cons]
    exact others

/-- Notices are passed on in parts. -/
theorem deliver_append (b : Switchboard) (first second : List (Rule × GivenNode)) :
    (b.deliver (first ++ second)).1 = ((b.deliver first).1.deliver second).1 := by
  induction first generalizing b with
  | nil => rfl
  | cons notice rest ih => exact ih (b.notify notice.1 notice.2).1

/-- The shared walks for a run pass on their notices when all rules have its listener. -/
theorem walkFor_board (b : Switchboard) (run : Nat) (q : RunRequest) :
    (b.walkFor run q.context.inventory q.buckets).1 =
      ((b.attachAll q.buckets.precompiled (.lint run)).deliver q.walked).1 := by
  simp only [walkFor, traverse_board, RunRequest.walked, deliver_append]

/-- The rules that the shared walks for a run tell have its listener, whatever they had before. -/
theorem lookup_of_mem_walked (b : Switchboard) (run : Nat) {q : RunRequest} {t : Rule × GivenNode}
    (told : t ∈ q.walked) :
    (b.attachAll q.buckets.precompiled (.lint run)).listeners.lookup t.1.name = some (.lint run) := by
  have member : t.1 ∈ q.buckets.precompiled :=
    List.mem_append.mpr ((List.mem_append.mp told).imp Walk.rule_of_mem_notices
      Walk.rule_of_mem_notices)
  rw [lookup_attachAll, if_pos (List.mem_map.mpr ⟨t.1, member, rfl⟩)]

/-- The shared walks for a run are visits of that run. -/
theorem walkFor_runs (q : RunRequest) (present : b.runs[run]? = some l) :
    (b.walkFor run q.context.inventory q.buckets).1.runs[run]? =
      some (l.afterAll (q.walked.map fun t => l.visit t.1 t.2)) := by
  rw [walkFor_board]
  refine deliver_runs _ (fun t told => b.lookup_of_mem_walked run told) ?_
  rw [runs_attachAll, present]

theorem runs_addRun (b : Switchboard) (l : Ledger) : (b.addRun l).runs[b.runs.size]? = some l := by
  simp [addRun]

/-- The part of a run that nothing interrupts, up to the wait for the checks that answer later. -/
def launch (b : Switchboard) (q : RunRequest) (l : Ledger) : Switchboard × List LogEntry :=
  let rules := q.buckets
  let number := b.runs.size
  let started := LogEntry.running rules.resolved.length rules.unresolved.length rules.plain.length
  let (b, walked) := (b.addRun l).walkFor number q.context.inventory rules
  let (l, queried) := ((b.runs[number]?).getD l).lintAllByQuery rules.plain
  ({ b with runs := b.runs.setIfInBounds number l }, started :: walked ++ queried)

/-- A run whose declarations are illegible fails and leaves the switchboard as it is. -/
theorem runBy_of_error (b : Switchboard) (schedule : Schedule) {q : RunRequest} {failure : Failure}
    (illegible : q.opening.2 = .error failure) :
    b.runBy schedule q = (b, ⟨.error failure, q.opening.1⟩) := by
  have opening : q.opening = (q.opening.1, .error failure) := Prod.ext rfl illegible
  rw [runBy, opening]

/-- A run that starts launches and then waits. -/
theorem runBy_eq_launch (b : Switchboard) (schedule : Schedule) {q : RunRequest} {l : Ledger}
    (begins : q.opening.2 = .ok l) :
    let launched := b.launch q l
    let waited := ((launched.1.runs[b.runs.size]?).getD l).settleBy schedule
    b.runBy schedule q =
      ({ launched.1 with runs := launched.1.runs.setIfInBounds b.runs.size waited.1 },
        ⟨.ok waited.1, q.opening.1 ++ launched.2 ++ waited.2⟩) := by
  have opened : q.opening = (q.opening.1, .ok l) := Prod.ext rfl begins
  have present := walkFor_runs q (b.runs_addRun l)
  obtain ⟨bound, _⟩ := Array.getElem?_eq_some_iff.mp present
  rw [runBy, opened]
  simp only [launch, present, Option.getD_some, Array.getElem?_setIfInBounds_self_of_lt bound,
    Array.setIfInBounds_setIfInBounds, finish, List.append_assoc, List.cons_append]

end Switchboard

namespace RunRequest

/-- A run with suppressions starts with them. -/
theorem opening_ok {q : RunRequest} {suppressions : Suppressions}
    (suppressed : q.Suppresses suppressions) : q.opening.2 = .ok (q.opened suppressions) := by
  unfold Suppresses at suppressed
  cases stream : q.context.inventory.document.isStream with
  | true =>
    simp only [stream, if_true] at suppressed
    subst suppressions
    cases undeclared : q.declarations.isEmpty <;>
      simp [opening, opened, warnings, stream, undeclared, Ledger.start]
  | false =>
    simp only [stream, Bool.false_eq_true, if_false] at suppressed
    simp [opening, opened, warnings, stream, suppressed, Except.map, Ledger.start]

/-- A run that starts has suppressions. -/
theorem suppresses_of_opening {q : RunRequest} {first : Ledger}
    (begins : q.opening.2 = .ok first) :
    ∃ suppressions, q.Suppresses suppressions := by
  unfold Suppresses
  cases stream : q.context.inventory.document.isStream with
  | true => exact ⟨[], rfl⟩
  | false =>
    simp only [opening, stream, Bool.false_eq_true, if_false] at begins
    cases read : (q.declarations.pivot q.context.workingDir q.baseDir (q.rules.map Rule.name)).2 with
    | error failure => simp [read, Except.map] at begins
    | ok suppressions => exact ⟨suppressions, rfl⟩

/-- The state of a run that has linted its nodes and waits for the checks that answer later. -/
def unsettled (q : RunRequest) (suppressions : Suppressions) : Ledger :=
  (q.opened suppressions).afterAll (q.plan suppressions)

/-- What a run notes before it waits: what reading the declarations, the shared walks and the queries of
the other rules note. -/
def noted (b : Switchboard) (q : RunRequest) (suppressions : Suppressions) : List LogEntry :=
  let l := q.opened suppressions
  let walks := (b.addRun l).walkFor b.runs.size q.context.inventory q.buckets
  let walked := l.afterAll (q.walked.map fun t => l.visit t.1 t.2)
  q.opening.1 ++
    .running q.buckets.resolved.length q.buckets.unresolved.length q.buckets.plain.length ::
      walks.2 ++ (walked.lintAllByQuery q.buckets.plain).2

/-- What a run lints before it waits is what its request plans, whatever else is on the switchboard. -/
theorem launch_runs (b : Switchboard) (q : RunRequest) (suppressions : Suppressions) :
    (b.launch q (q.opened suppressions)).1.runs[b.runs.size]? = some (q.unsettled suppressions) := by
  have present := Switchboard.walkFor_runs q (b.runs_addRun (q.opened suppressions))
  obtain ⟨bound, _⟩ := Array.getElem?_eq_some_iff.mp present
  have queries := ((q.opened suppressions).afterAll
    (q.walked.map fun t => (q.opened suppressions).visit t.1 t.2)).lintAllByQuery_eq q.buckets.plain
  rw [← Ledger.afterAll_append] at queries
  simp only [Switchboard.launch, present, Option.getD_some, Array.getElem?_setIfInBounds_self_of_lt bound]
  exact congrArg some queries

/-- A run reports what the wait of its visits comes to, whatever else is on the switchboard. -/
theorem runBy_report (b : Switchboard) (schedule : Schedule) {q : RunRequest}
    {suppressions : Suppressions} (suppressed : q.Suppresses suppressions) :
    (b.runBy schedule q).2 =
      ⟨.ok ((q.unsettled suppressions).settleBy schedule).1,
        q.noted b suppressions ++ ((q.unsettled suppressions).settleBy schedule).2⟩ := by
  have present := Switchboard.walkFor_runs q (b.runs_addRun (q.opened suppressions))
  rw [b.runBy_eq_launch schedule (opening_ok suppressed), launch_runs]
  simp only [Option.getD_some, Switchboard.launch, present, noted, List.append_assoc]

/-- A run leaves the ledger of its visits. -/
theorem runBy_outcome (b : Switchboard) (schedule : Schedule) {q : RunRequest}
    {suppressions : Suppressions} (suppressed : q.Suppresses suppressions) :
    (b.runBy schedule q).2.outcome = .ok (q.left schedule suppressions) := by
  rw [runBy_report b schedule suppressed]
  rfl

/-- The diagnostics of a run are those of the ledger that it leaves. -/
theorem runBy_result (b : Switchboard) (schedule : Schedule) {q : RunRequest}
    {suppressions : Suppressions} (suppressed : q.Suppresses suppressions) :
    (b.runBy schedule q).2.result = .ok (q.left schedule suppressions).diagnostics := by
  rw [RunReport.result, runBy_outcome b schedule suppressed]
  rfl

end RunRequest
end DocLint
