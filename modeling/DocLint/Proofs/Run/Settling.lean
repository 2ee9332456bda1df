import DocLint.Proofs.Run.Once
import DocLint.Proofs.Run.Waiting

/-!
# Runs whose checks answer later

A run starts checks that answer later while it lints, and waits for all of them before it returns
(`runBy_waits`). In whichever order they answer and whichever of them fail, what was recorded at once
comes first, then the findings of each check in one piece, and each failure is noted once.
-/
namespace DocLint

/-- Reading declarations notes nothing but names of rules that do not exist. -/
theorem Declarations.log_pivot {workingDir : String} {base : Option String} {rules : List String}
    {d : Declarations} {e : LogEntry} (noted : e ∈ (d.pivot workingDir base rules).1) :
    ∃ rule, e = .unknownRule rule := by
  induction d with
  | nil => simp [pivot] at noted
  | cons declared rest ih =>
    obtain ⟨rule, written⟩ := declared
    by_cases known : rules.contains rule = true
    · cases read : written.mapM (Location.parse workingDir base) with
      | error failure => simp only [pivot, known, if_true, read, List.not_mem_nil] at noted
      | ok locations =>
        simp only [pivot, known, if_true, read] at noted
        exact ih noted
    · simp only [pivot, known, Bool.false_eq_true, if_false, List.mem_cons] at noted
      rcases noted with rfl | later
      · exact ⟨rule, rfl⟩
      · exact ih later

/-- Passing notices on notes nothing but listeners that fail. -/
theorem Switchboard.log_deliver {b : Switchboard} {notices : List (Rule × GivenNode)} {e : LogEntry}
    (noted : e ∈ (b.deliver notices).2) : ∃ rule path cause, e = .listenerFailed rule path cause := by
  induction notices generalizing b with
  | nil => simp [deliver] at noted
  | cons notice rest ih =>
    simp only [deliver, List.mem_append, Option.mem_toList, Option.map_eq_some_iff] at noted
    rcases noted with ⟨cause, _, rfl⟩ | later
    · exact ⟨_, _, cause, rfl⟩
    · exact ih later

/-- Evaluating rules through queries notes nothing but rules that are given up. -/
theorem Ledger.log_lintAllByQuery {l : Ledger} {rules : List Rule} {e : LogEntry}
    (noted : e ∈ (l.lintAllByQuery rules).2) : ∃ rule cause, e = .ruleFailed rule cause := by
  induction rules generalizing l with
  | nil => simp [lintAllByQuery] at noted
  | cons rule rest ih =>
    simp only [lintAllByQuery, List.mem_append, Option.mem_toList, Option.map_eq_some_iff] at noted
    rcases noted with ⟨cause, _, rfl⟩ | later
    · exact ⟨_, cause, rfl⟩
    · exact ih later

namespace RunRequest
variable {q : RunRequest}

/-- Before it waits a run notes no check that answers later. -/
theorem laterCheckFailed_not_mem_noted (b : Switchboard) (suppressions : Suppressions)
    (cause : Failure) : .laterCheckFailed cause ∉ q.noted b suppressions := by
  intro member
  have opening : .laterCheckFailed cause ∉ q.opening.1 := by
    intro early
    cases stream : q.context.inventory.document.isStream with
    | true => simp [opening, stream] at early
    | false =>
      simp only [opening, stream, Bool.false_eq_true, if_false] at early
      obtain ⟨_, other⟩ := Declarations.log_pivot early
      cases other
  have walks : ∀ (b : Switchboard) (tree : Value) (rules : List Rule),
      .laterCheckFailed cause ∉ (b.traverse tree rules).log := by
    intro b tree rules walked
    unfold Switchboard.traverse at walked
    split at walked
    · exact List.not_mem_nil walked
    · rcases List.mem_append.mp walked with told | done
      · obtain ⟨_, _, _, other⟩ := Switchboard.log_deliver told
        cases other
      · cases List.mem_singleton.mp done
  rcases List.mem_append.mp member with before | queried
  · rcases List.mem_append.mp before with early | later
    · exact opening early
    · rcases List.mem_cons.mp later with other | walked
      · cases other
      · exact (List.mem_append.mp walked).elim (walks _ _ _) (walks _ _ _)
  · obtain ⟨_, _, other⟩ := Ledger.log_lintAllByQuery queried
    cases other

/-- A run that starts lints its nodes and then waits: by whichever schedule its checks answer, it returns
what some wait ends with, and every wait that ends is that of some schedule; the checks can answer in any
order. A wait is never stuck and does not go on for ever; it ends only when every check has answered, once.
Then what was recorded at once comes first and the findings of the checks follow, those of each in one
piece and none of those that failed, and the failures are noted once each, in the order in which the checks
were started. So every order gives the same diagnostics up to their own order. -/
theorem runBy_waits (b : Switchboard) (q : RunRequest) {first : Ledger}
    (begins : q.opening.2 = .ok first) :
    ∃ (l : Ledger) (before : List LogEntry),
      (∃ suppressions, q.Suppresses suppressions ∧ l.visits = q.plan suppressions) ∧
      l.entries = q.warnings ++ (l.visits.flatMap fun v => v.trace.entries) ∧
      l.pending = (l.visits.flatMap fun v => v.trace.pending) ∧
      (∀ cause, .laterCheckFailed cause ∉ before) ∧
      (∀ schedule, ∃ w, Wait.Reaches l w ∧ w.phase = .returned ∧
        (b.runBy schedule q).2 = ⟨.ok w.ledger, before ++ w.log⟩) ∧
      (∀ w, Wait.Reaches l w →
        (w.phase ≠ .returned → ∃ next, Wait.Step w next) ∧
        Acc (fun next w => Wait.Step w next) w ∧
        (w.phase = .returned → Wait.Complete l w ∧
          ∃ schedule, (b.runBy schedule q).2 = ⟨.ok w.ledger, before ++ w.log⟩)) ∧
      (∀ order : List Nat, order.Perm (List.range l.pending.length) →
        ∃ w, Wait.Reaches l w ∧ w.phase = .returned ∧ w.answered = order) ∧
      ∀ w w', Wait.Reaches l w → w.phase = .returned → Wait.Reaches l w' → w'.phase = .returned →
        w.ledger.diagnostics.Perm w'.ledger.diagnostics := by
  obtain ⟨suppressions, suppressed⟩ := suppresses_of_opening begins
  have fresh : (q.unsettled suppressions).settled = 0 := rfl
  have report := fun schedule => runBy_report b schedule suppressed
  refine ⟨q.unsettled suppressions, q.noted b suppressions, ⟨suppressions, suppressed, rfl⟩, rfl, rfl,
    laterCheckFailed_not_mem_noted b suppressions, ?_, ?_, fun _ => Wait.exists_answering fresh, ?_⟩
  · intro schedule
    obtain ⟨w, reached, returned, settled⟩ := Wait.exists_of_schedule fresh schedule
    refine ⟨w, reached, returned, ?_⟩
    rw [report, settled]
  · intro w reached
    refine ⟨Wait.exists_step fresh reached, Wait.acc_step w, fun returned => ?_⟩
    obtain ⟨schedule, settled⟩ := Wait.exists_schedule fresh reached returned
    refine ⟨Wait.complete_of_returned fresh reached returned, schedule, ?_⟩
    rw [report, settled]
  · intro w w' reached returned reached' returned'
    have complete := Wait.complete_of_returned fresh reached returned
    have complete' := Wait.complete_of_returned fresh reached' returned'
    refine List.Perm.map _ ?_
    rw [complete.entries, complete'.entries]
    exact ((complete.perm.trans complete'.perm.symm).flatMap_right _).append_left _

/-- A rule with a name whose check answers later, when it finds fault or fails. -/
def belatedRule (name : String) (answer : Except Failure Answer) : Rule :=
  { Rule.standard name [] with
    actions := [⟨"later", fun _ _ _ => .later 1 answer, none, none⟩]
    strategy := .walk [⟨"$.*", [.any]⟩] }

/-- A run with checks that answer at once and later, some of which fail. -/
def belated : RunRequest where
  context :=
    { inventory := .ofDocument .sharing none none
      query := fun _ _ => .failed (.aborted "no query")
      workingDir := "/" }
  rules := [belatedRule "slow" (.ok (some [⟨"seen", []⟩])),
    belatedRule "failing" (.error (.aborted "no")),
    belatedRule "quick" (.ok (some [⟨"seen", []⟩])), { twofold with name := "now" }]
  declarations := []
  baseDir := none

theorem belated_waits :
    (∃ first, belated.opening.2 = .ok first) ∧
    ∃ diagnostics diagnostics',
      (Switchboard.empty.runBy ⟨id, List.Perm.refl⟩ belated).2.result = .ok diagnostics ∧
      (Switchboard.empty.runBy ⟨List.reverse, List.reverse_perm⟩ belated).2.result =
        .ok diagnostics' ∧
      diagnostics.Perm diagnostics' ∧
      (diagnostics.map fun d => (d.code, d.path)) =
        [("now", [.str "a", .int 1, .str "x"]), ("now", [.str "b", .str "x"]),
          ("slow", [.str "a"]), ("quick", [.str "a"]), ("slow", [.str "b"]), ("quick", [.str "b"])] ∧
      (diagnostics'.map fun d => (d.code, d.path)) =
        [("now", [.str "a", .int 1, .str "x"]), ("now", [.str "b", .str "x"]),
          ("quick", [.str "b"]), ("slow", [.str "b"]), ("quick", [.str "a"]), ("slow", [.str "a"])] := by
  have inTurn : ((Switchboard.empty.runBy ⟨id, List.Perm.refl⟩ belated).2.result.toOption.map fun ds =>
      ds.map fun d => (d.code, d.path)) =
        some [("now", [.str "a", .int 1, .str "x"]), ("now", [.str "b", .str "x"]),
          ("slow", [.str "a"]), ("quick", [.str "a"]), ("slow", [.str "b"]), ("quick", [.str "b"])] := by
    decide
  have backwards : ((Switchboard.empty.runBy ⟨List.reverse, List.reverse_perm⟩
      belated).2.result.toOption.map fun ds => ds.map fun d => (d.code, d.path)) =
        some [("now", [.str "a", .int 1, .str "x"]), ("now", [.str "b", .str "x"]),
          ("quick", [.str "b"]), ("slow", [.str "b"]), ("quick", [.str "a"]), ("slow", [.str "a"])] := by
    decide
  have begins : belated.opening.2 = .ok (belated.opened []) := rfl
  obtain ⟨l, before, _, _, _, _, runs, _, _, same⟩ := runBy_waits Switchboard.empty belated begins
  obtain ⟨w, reached, returned, report⟩ := runs ⟨id, List.Perm.refl⟩
  obtain ⟨w', reached', returned', report'⟩ := runs ⟨List.reverse, List.reverse_perm⟩
  rw [report] at inTurn ⊢
  rw [report'] at backwards ⊢
  exact ⟨⟨_, begins⟩, _, _, rfl, rfl, same w w' reached returned reached' returned',
    Option.some.inj inTurn, Option.some.inj backwards⟩

end RunRequest
end DocLint
