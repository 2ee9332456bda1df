import DocLint.Proofs.Run.Grounds
import DocLint.Proofs.Run.Once
import DocLint.Proofs.Run.Settling
import DocLint.Proofs.Run.Suppression

/-!
# The course of a run

A run in single steps: it passes on one notice of its shared walks after the other, lints the nodes that
its other rules query one by one, and then waits, while its checks answer in any order. `Course.Step` is
this as a relation between states, on the switchboard on which the run takes place. What each step does is
what the run does as a whole (`Course.reaches_returned`). The ledger of the run is grounded in every state
(`Course.Sound`), so whatever it has recorded at any time rests on a node that was linted
(`Course.entries_rest_on_visits`).
-/
namespace DocLint
open Relation

namespace Switchboard
variable {b : Switchboard} {run : Nat} {l : Ledger}

/-- The switchboard with another ledger under the number of a run. -/
def withLedger (b : Switchboard) (run : Nat) (l : Ledger) : Switchboard :=
  { b with runs := b.runs.setIfInBounds run l }

theorem runs_withLedger (present : b.runs[run]? = some l) (m : Ledger) :
    (b.withLedger run m).runs[run]? = some m :=
  Array.getElem?_setIfInBounds_self_of_lt (Array.getElem?_eq_some_iff.mp present).1

theorem withLedger_self (present : b.runs[run]? = some l) : b.withLedger run l = b := by
  obtain ⟨bound, value⟩ := Array.getElem?_eq_some_iff.mp present
  rw [withLedger, ← value, Array.setIfInBounds_def, dif_pos bound, Array.set_getElem_self]

theorem withLedger_withLedger (b : Switchboard) (run : Nat) (l m : Ledger) :
    (b.withLedger run l).withLedger run m = b.withLedger run m := by
  simp [withLedger]

end Switchboard

/-- What a run is about to do. -/
inductive Course.Phase where
  /-- To pass on notices of the shared walks. -/
  | telling (notices : List (Rule × GivenNode))
  /-- To evaluate rules through queries. -/
  | querying (rules : List Rule)
  /-- To lint what the expressions of a rule yield, having seen some paths, and then to evaluate the other
  rules. -/
  | linting (rule : Rule) (seen : List Path) (attempts : List (GivenNode ⊕ Failure)) (rules : List Rule)
  /-- To wait for its checks, or nothing more. -/
  | waiting (phase : Wait.Phase) (answered : List Nat) (log : List LogEntry)

/-- A state of a run. Its ledger is on the switchboard. -/
structure Course where
  board : Switchboard
  phase : Course.Phase

namespace Course

/-- What a run with a number does in one step. -/
inductive Step (q : RunRequest) (run : Nat) : Course → Course → Prop
  /-- It tells a rule of a node. -/
  | tell {b : Switchboard} {rule : Rule} {node : GivenNode} {rest : List (Rule × GivenNode)} :
      Step q run ⟨b, .telling ((rule, node) :: rest)⟩ ⟨(b.notify rule node).1, .telling rest⟩
  /-- It turns to the rules that the shared walks do not serve. -/
  | turn {b : Switchboard} : Step q run ⟨b, .telling []⟩ ⟨b, .querying q.buckets.plain⟩
  /-- It queries what a rule asks for. -/
  | query {b : Switchboard} {l : Ledger} {rule : Rule} {rules : List Rule}
      (present : b.runs[run]? = some l) :
      Step q run ⟨b, .querying (rule :: rules)⟩
        ⟨b, .linting rule [] (l.attempts (l.context.inventory.tree rule.resolved) rule.given) rules⟩
  /-- It leaves out a node at a path that it has seen. -/
  | skip {b : Switchboard} {rule : Rule} {seen : List Path} {node : GivenNode}
      {more : List (GivenNode ⊕ Failure)} {rules : List Rule}
      (known : seen.any node.documentPath.same = true) :
      Step q run ⟨b, .linting rule seen (.inl node :: more) rules⟩ ⟨b, .linting rule seen more rules⟩
  /-- It lints a node. -/
  | lint {b : Switchboard} {l after : Ledger} {rule : Rule} {seen : List Path} {node : GivenNode}
      {more : List (GivenNode ⊕ Failure)} {rules : List Rule} (present : b.runs[run]? = some l)
      (fresh : ¬ seen.any node.documentPath.same = true)
      (lints : l.lint rule (l.locationsOf rule.name) node = (after, none)) :
      Step q run ⟨b, .linting rule seen (.inl node :: more) rules⟩
        ⟨b.withLedger run after, .linting rule (node.documentPath :: seen) more rules⟩
  /-- It lints a node, which fails, and gives the rule up. -/
  | fail {b : Switchboard} {l after : Ledger} {rule : Rule} {seen : List Path} {node : GivenNode}
      {more : List (GivenNode ⊕ Failure)} {rules : List Rule} {failure : Failure}
      (present : b.runs[run]? = some l) (fresh : ¬ seen.any node.documentPath.same = true)
      (lints : l.lint rule (l.locationsOf rule.name) node = (after, some failure)) :
      Step q run ⟨b, .linting rule seen (.inl node :: more) rules⟩
        ⟨b.withLedger run after, .querying rules⟩
  /-- A query fails, and it gives the rule up. -/
  | giveUp {b : Switchboard} {rule : Rule} {seen : List Path} {failure : Failure}
      {more : List (GivenNode ⊕ Failure)} {rules : List Rule} :
      Step q run ⟨b, .linting rule seen (.inr failure :: more) rules⟩ ⟨b, .querying rules⟩
  /-- It is done with a rule. -/
  | finish {b : Switchboard} {rule : Rule} {seen : List Path} {rules : List Rule} :
      Step q run ⟨b, .linting rule seen [] rules⟩ ⟨b, .querying rules⟩
  /-- It begins to wait. -/
  | rest {b : Switchboard} : Step q run ⟨b, .querying []⟩ ⟨b, .waiting .looking [] []⟩
  /-- It goes on waiting, or one of its checks answers. -/
  | wait {b : Switchboard} {w next : Wait} (present : b.runs[run]? = some w.ledger)
      (step : Wait.Step w next) :
      Step q run ⟨b, .waiting w.phase w.answered w.log⟩
        ⟨b.withLedger run next.ledger, .waiting next.phase next.answered next.log⟩

/-- The state in which a run has its first ledger and its rules listen for it. -/
def start (b : Switchboard) (q : RunRequest) (first : Ledger) : Course :=
  ⟨(b.addRun first).attachAll q.buckets.precompiled (.lint b.runs.size), .telling q.walked⟩

/-- The states that a run can come to which starts on a switchboard. -/
def Reaches (b : Switchboard) (q : RunRequest) (first : Ledger) (c : Course) : Prop :=
  ReflTransGen (Step q b.runs.size) (start b q first) c

/-! ### What holds all through a run -/

/-- The notices that are yet to be passed on. -/
def Phase.notices : Phase → List (Rule × GivenNode)
  | .telling notices => notices
  | _ => []

/-- The rules for which nodes are yet to be linted. -/
def Phase.rules : Phase → List Rule
  | .telling notices => notices.map Prod.fst
  | .querying rules => rules
  | .linting rule _ _ rules => rule :: rules
  | .waiting .. => []

/-- What holds all through a run: its ledger is grounded, and it goes on with rules that take part and that
listen for it. -/
structure Sound (q : RunRequest) (suppressions : Suppressions) (run : Nat) (c : Course) : Prop where
  ledger : ∃ l, c.board.runs[run]? = some l ∧ l.Grounded q suppressions
  attached : ∀ t ∈ c.phase.notices, c.board.listeners.lookup t.1.name = some (.lint run)
  rules : ∀ r ∈ c.phase.rules, r ∈ q.rules ∧ r.isAdmitted q.context.inventory.formats = true

variable {q : RunRequest} {suppressions : Suppressions} {run : Nat} {c next : Course}

theorem sound_start (b : Switchboard) (q : RunRequest) (suppressions : Suppressions) :
    Sound q suppressions b.runs.size (start b q (q.opened suppressions)) where
  ledger := by
    refine ⟨_, ?_, Ledger.grounded_opened q suppressions⟩
    simp only [start, Switchboard.runs_attachAll, Switchboard.runs_addRun]
  attached t told := (b.addRun _).lookup_of_mem_walked b.runs.size told
  rules r member := by
    obtain ⟨t, told, rfl⟩ := List.mem_map.mp member
    exact RunRequest.rule_of_walked told

/-- Each step keeps what holds all through a run. -/
theorem Sound.step (sound : Sound q suppressions run c) (step : Step q run c next) :
    Sound q suppressions run next := by
  obtain ⟨l, here, grounded⟩ := sound.ledger
  cases step with
  | @tell b rule node rest =>
    obtain ⟨member, admitted⟩ := sound.rules rule List.mem_cons_self
    have attached := sound.attached (rule, node) List.mem_cons_self
    refine ⟨⟨_, b.notify_runs node attached here, grounded.lint member admitted node⟩, ?_, ?_⟩
    · intro t told
      rw [(b.notify_effects rule node).1]
      exact sound.attached t (List.mem_cons_of_mem _ told)
    · exact fun r left => sound.rules r (List.mem_cons_of_mem _ left)
  | turn => exact ⟨sound.ledger, List.forall_mem_nil _, fun r plain => RunRequest.rule_of_plain plain⟩
  | query _ => exact ⟨sound.ledger, List.forall_mem_nil _, sound.rules⟩
  | skip _ => exact ⟨sound.ledger, List.forall_mem_nil _, sound.rules⟩
  | @lint b l' after rule seen node more rules present _ lints =>
    obtain rfl : l' = l := Option.some.inj (present.symm.trans here)
    obtain rfl := congrArg Prod.fst ((l'.lint_eq _ _ _).symm.trans lints)
    obtain ⟨member, admitted⟩ := sound.rules rule List.mem_cons_self
    exact ⟨⟨_, Switchboard.runs_withLedger here _, grounded.lint member admitted node⟩, List.forall_mem_nil _, sound.rules⟩
  | @fail b l' after rule seen node more rules failure present _ lints =>
    obtain rfl : l' = l := Option.some.inj (present.symm.trans here)
    obtain rfl := congrArg Prod.fst ((l'.lint_eq _ _ _).symm.trans lints)
    obtain ⟨member, admitted⟩ := sound.rules rule List.mem_cons_self
    exact ⟨⟨_, Switchboard.runs_withLedger here _, grounded.lint member admitted node⟩, List.forall_mem_nil _,
      fun r left => sound.rules r (List.mem_cons_of_mem _ left)⟩
  | giveUp => exact ⟨sound.ledger, List.forall_mem_nil _, fun r left => sound.rules r (List.mem_cons_of_mem _ left)⟩
  | finish => exact ⟨sound.ledger, List.forall_mem_nil _, fun r left => sound.rules r (List.mem_cons_of_mem _ left)⟩
  | rest => exact ⟨sound.ledger, List.forall_mem_nil _, List.forall_mem_nil _⟩
  | @wait b w after present step =>
    obtain rfl : w.ledger = l := Option.some.inj (present.symm.trans here)
    exact ⟨⟨_, Switchboard.runs_withLedger here _, grounded.wait step⟩, List.forall_mem_nil _,
      List.forall_mem_nil _⟩

/-- What holds all through a run holds in every state that it comes to. -/
theorem sound_of_reaches {b : Switchboard} (reached : Reaches b q (q.opened suppressions) c) :
    Sound q suppressions b.runs.size c := by
  induction reached with
  | refl => exact sound_start b q suppressions
  | tail _ step ih => exact ih.step step

/-! ### The steps of a run and the run as a whole -/

section
variable {b : Switchboard} {l : Ledger}

/-- Notices are passed on one by one. -/
theorem reaches_told (b : Switchboard) (notices : List (Rule × GivenNode)) :
    ReflTransGen (Step q run) ⟨b, .telling notices⟩ ⟨(b.deliver notices).1, .telling []⟩ := by
  induction notices generalizing b with
  | nil => exact .refl
  | cons notice rest ih => exact (ih (b.notify notice.1 notice.2).1).head .tell

/-- What the expressions of a rule yield is linted one by one, as far as it is linted. -/
theorem reaches_linted (present : b.runs[run]? = some l) (rule : Rule) (seen : List Path)
    (attempts : List (GivenNode ⊕ Failure)) (rules : List Rule) :
    ReflTransGen (Step q run) ⟨b, .linting rule seen attempts rules⟩
      ⟨b.withLedger run (l.afterAll ((linted (l.context.failsOn rule (l.locationsOf rule.name)) seen
        attempts).map (l.visit rule))), .querying rules⟩ := by
  have same : b.withLedger run (l.afterAll []) = b := by
    rw [Ledger.afterAll_nil, Switchboard.withLedger_self present]
  induction attempts generalizing b l seen with
  | nil =>
    rw [linted, List.map_nil, same]
    exact .single .finish
  | cons attempt more ih =>
    cases attempt with
    | inr failure =>
      rw [linted, List.map_nil, same]
      exact .single .giveUp
    | inl node =>
      rw [linted]
      by_cases known : seen.any node.documentPath.same = true
      · rw [if_pos known]
        exact (ih present seen same).head (.skip known)
      · rw [if_neg known]
        have lints := l.lint_eq rule (l.locationsOf rule.name) node
        cases failed : (l.visit rule node).trace.failure? with
        | some failure =>
          have fails : l.context.failsOn rule (l.locationsOf rule.name) node = true :=
            congrArg Option.isSome failed
          rw [if_pos fails]
          exact .single (.fail present known (lints.trans (Prod.ext rfl failed)))
        | none =>
          have passes : l.context.failsOn rule (l.locationsOf rule.name) node = false :=
            congrArg Option.isSome failed
          have written := Switchboard.runs_withLedger present (l.afterAll [l.visit rule node])
          have others := ih written (node.documentPath :: seen)
            (by rw [Ledger.afterAll_nil, Switchboard.withLedger_self written])
          rw [Switchboard.withLedger_withLedger] at others
          rw [if_neg (Bool.eq_false_iff.mp passes), List.map_cons, Ledger.afterAll_cons]
          exact others.head (.lint present known (lints.trans (Prod.ext rfl failed)))

/-- Rules are evaluated through queries one by one. -/
theorem reaches_queried (present : b.runs[run]? = some l) (rules : List Rule) :
    ReflTransGen (Step q run) ⟨b, .querying rules⟩
      ⟨b.withLedger run (l.lintAllByQuery rules).1, .querying []⟩ := by
  rw [Ledger.lintAllByQuery_eq]
  induction rules generalizing b l with
  | nil =>
    rw [List.flatMap_nil, Ledger.afterAll_nil, Switchboard.withLedger_self present]
  | cons rule rest ih =>
    have own := reaches_linted (q := q) present rule []
      (l.attempts (l.context.inventory.tree rule.resolved) rule.given) rest
    have others := ih (Switchboard.runs_withLedger present
      (l.afterAll ((l.queried rule).map (l.visit rule))))
    rw [Switchboard.withLedger_withLedger] at others
    rw [List.flatMap_cons, Ledger.afterAll_append]
    exact (own.trans others).head (.query present)

/-- A wait takes place step by step. -/
theorem reaches_waited (present : b.runs[run]? = some l) {w : Wait} (waits : Wait.Reaches l w) :
    ReflTransGen (Step q run) ⟨b, .waiting .looking [] []⟩
      ⟨b.withLedger run w.ledger, .waiting w.phase w.answered w.log⟩ := by
  induction waits with
  | refl =>
    rw [Wait.start, Switchboard.withLedger_self present]
  | @tail between last _ step ih =>
    have onward := Step.wait (q := q) (Switchboard.runs_withLedger present between.ledger) step
    rw [Switchboard.withLedger_withLedger] at onward
    exact ih.tail onward

/-- A run by a schedule is one of the courses that a run can take, to its end. -/
theorem reaches_returned (b : Switchboard) (suppressed : q.Suppresses suppressions) (schedule : Schedule) :
    ∃ c answered log, Reaches b q (q.opened suppressions) c ∧ c.phase = .waiting .returned answered log ∧
      c.board = (b.runBy schedule q).1 := by
  have walked := Switchboard.walkFor_runs q (b.runs_addRun (q.opened suppressions))
  have launched := q.launch_runs b suppressions
  obtain ⟨w, waits, returned, settled⟩ :=
    Wait.exists_of_schedule (l := q.unsettled suppressions) rfl schedule
  have told : ReflTransGen (Step q b.runs.size) _ _ :=
    reaches_told (start b q (q.opened suppressions)).board q.walked
  have queried := reaches_queried (q := q) walked q.buckets.plain
  have waited := reaches_waited (q := q) launched waits
  have board := b.runBy_eq_launch schedule (RunRequest.opening_ok suppressed)
  simp only [launched, Option.getD_some, settled] at board
  have evaluated : ((b.addRun (q.opened suppressions)).walkFor b.runs.size q.context.inventory
      q.buckets).1.withLedger b.runs.size (((q.opened suppressions).afterAll
        (q.walked.map fun t => (q.opened suppressions).visit t.1 t.2)).lintAllByQuery
          q.buckets.plain).1 = (b.launch q (q.opened suppressions)).1 := by
    simp only [Switchboard.launch, walked, Option.getD_some, Switchboard.withLedger]
  rw [evaluated] at queried
  rw [Switchboard.walkFor_board] at queried
  refine ⟨_, w.answered, w.log, told.trans ((queried.head .turn).trans (waited.head .rest)), ?_, ?_⟩
  · rw [returned]
  · rw [board]
    rfl

end

/-- Whatever a run has recorded in any state that it comes to, be it among its notices, among its queries or
while its checks answer, rests on a node that it has linted for an admitted rule: the diagnostic has the
rule's name and severity, the place of the document, the range of its path and a path through that of the
node, and none of the locations that were read for the rule is either path. Only the warning of a stream,
which comes first, is not so. A run by any schedule comes to its end through such states. -/
theorem entries_rest_on_visits (b : Switchboard) (q : RunRequest) {first : Ledger}
    (begins : q.opening.2 = .ok first) :
    ∃ suppressions, q.Suppresses suppressions ∧
      (∀ c, Reaches b q first c → ∃ l found, c.board.runs[b.runs.size]? = some l ∧
        l.entries = q.warnings ++ found ∧
        ∀ e ∈ found, ∃ v ∈ l.visits, e.RestsOn q suppressions v) ∧
      ∀ schedule, ∃ c answered log l, Reaches b q first c ∧
        c.phase = .waiting .returned answered log ∧ c.board = (b.runBy schedule q).1 ∧
        c.board.runs[b.runs.size]? = some l ∧ (b.runBy schedule q).2.outcome = .ok l := by
  obtain ⟨suppressions, suppressed⟩ := RunRequest.suppresses_of_opening begins
  obtain rfl := Except.ok.inj ((RunRequest.opening_ok suppressed).symm.trans begins)
  refine ⟨suppressions, suppressed, fun c reached => ?_, fun schedule => ?_⟩
  · obtain ⟨l, present, grounded⟩ := (sound_of_reaches reached).ledger
    obtain ⟨found, whole, rest⟩ := grounded.entries
    exact ⟨l, found, present, whole, rest⟩
  · obtain ⟨c, answered, log, reached, returned, board⟩ := reaches_returned b suppressed schedule
    have report := b.runBy_eq_launch schedule (RunRequest.opening_ok suppressed)
    have launched := q.launch_runs b suppressions
    refine ⟨c, answered, log, _, reached, returned, board, ?_, RunRequest.runBy_outcome b schedule suppressed⟩
    rw [board, report]
    simp only [launched, Option.getD_some]
    exact Switchboard.runs_withLedger launched _

/-- A run of rules of both kinds, whose checks answer at once and later and one of which fails, with
declarations. -/
def eventful : RunRequest :=
  { RunRequest.excused with
    context := { RunRequest.excused.context with query := RunRequest.overlapping.context.query }
    rules := [RunRequest.twiceOver "first", RunRequest.belatedRule "failing" (.error (.aborted "no")),
      RunRequest.repeating] }

theorem eventful_entries_rest :
    ∃ suppressions l, eventful.Suppresses suppressions ∧
      (Switchboard.empty.runBy ⟨id, List.Perm.refl⟩ eventful).2.outcome = .ok l ∧
      (∀ e ∈ l.entries, ∃ v ∈ l.visits, e.RestsOn eventful suppressions v) ∧
      (l.entries.map fun e => (e.diagnostic.code, e.node, e.diagnostic.path)) =
        [("first", [.str "b"], [.str "b"]), ("repeating", [], []),
          ("repeating", [.str "a", .int 1], [.str "a", .int 1])] := by
  have entries : ((Switchboard.empty.runBy ⟨id, List.Perm.refl⟩ eventful).2.outcome.toOption.map fun l =>
      l.entries.map fun e => (e.diagnostic.code, e.node, e.diagnostic.path)) =
        some [("first", [.str "b"], [.str "b"]), ("repeating", [], []),
          ("repeating", [.str "a", .int 1], [.str "a", .int 1])] := by
    decide +kernel
  have begins : eventful.opening.2 = .ok (eventful.opened _) := rfl
  obtain ⟨suppressions, suppressed, grounded, ends⟩ := entries_rest_on_visits .empty eventful begins
  obtain ⟨c, _, _, l, reached, _, _, present, outcome⟩ := ends ⟨id, List.Perm.refl⟩
  obtain ⟨l', found, present', whole, rests⟩ := grounded c reached
  obtain rfl := Option.some.inj (present.symm.trans present')
  rw [outcome] at entries
  refine ⟨suppressions, l, suppressed, outcome, fun e member => rests e ?_, Option.some.inj entries⟩
  rwa [whole] at member

end Course
end DocLint
