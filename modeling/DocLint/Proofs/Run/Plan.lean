import DocLint.Proofs.Run.Trace
import DocLint.Proofs.Run.Visits
import DocLint.Proofs.Suppression.Pivot
import DocLint.Proofs.Walk.Delivery
import DocLint.Run.Execution

/-!
# The plan of a run

Which nodes a run lints, and for which rules, follows from its request and its suppressions: `plan` lists
these visits in order. What a plan has for some of the rules is the plan of a request for them alone
(`plan_only`), so it can be read off rule by rule.
-/
namespace DocLint

namespace RunRequest

/-- What is recorded before any node is linted. -/
def warnings (q : RunRequest) : List Entry :=
  if q.context.inventory.document.isStream && !q.declarations.isEmpty then
    [⟨[], streamWarning q.context.inventory.document⟩]
  else []

/-- Suppressions that a run of a request works with: those read of the declarations, or none for a
stream. -/
def Suppresses (q : RunRequest) (suppressions : Suppressions) : Prop :=
  if q.context.inventory.document.isStream then suppressions = []
  else (q.declarations.pivot q.context.workingDir q.baseDir (q.rules.map Rule.name)).2 =
    .ok suppressions

/-- The state at the start of a run with its suppressions. -/
def opened (q : RunRequest) (suppressions : Suppressions) : Ledger :=
  { Ledger.start q.context suppressions with entries := q.warnings }

/-- The nodes that the shared walks tell rules of, in order. -/
def walked (q : RunRequest) : List (Rule × GivenNode) :=
  Walk.notices q.buckets.resolved (Walk.nodes q.context.inventory.resolved none) ++
    Walk.notices q.buckets.unresolved (Walk.nodes q.context.inventory.document.data none)

/-- The visits of a run, in order: of what the shared walks tell, then of what the other rules query. -/
def plan (q : RunRequest) (suppressions : Suppressions) : List Visit :=
  let l := q.opened suppressions
  (q.walked.map fun t => l.visit t.1 t.2) ++
    q.buckets.plain.flatMap fun r => (l.queried r).map (l.visit r)

/-- The state at the end of a run. -/
def left (q : RunRequest) (schedule : Schedule) (suppressions : Suppressions) : Ledger :=
  (((q.opened suppressions).afterAll (q.plan suppressions)).settleBy schedule).1

section
variable (q : RunRequest) (schedule : Schedule) (suppressions : Suppressions)

/-- Legible declarations give suppressions. -/
theorem exists_suppresses (legible : q.declarations.Legible q.context.workingDir q.baseDir) :
    ∃ suppressions, q.Suppresses suppressions := by
  unfold Suppresses
  cases q.context.inventory.document.isStream with
  | true => exact ⟨[], rfl⟩
  | false => exact legible.pivot_ok _

/-- The nodes that a run has linted in the end are those of its plan. -/
theorem left_visits : (q.left schedule suppressions).visits = q.plan suppressions := by
  simp [left, Ledger.settleBy, Ledger.settleIn, Ledger.afterAll, opened, Ledger.start]

/-- What a run has recorded in the end: first what the visits record at once, then what the checks that
answer later do. -/
theorem left_entries : (q.left schedule suppressions).entries =
    q.warnings ++ ((q.plan suppressions).flatMap fun v => v.trace.entries) ++
      (schedule.order ((q.plan suppressions).flatMap fun v => v.trace.pending)).flatMap
        Pending.recorded := by
  simp [left, Ledger.settleBy, Ledger.settleIn, Ledger.afterAll, Ledger.outstanding, opened,
    Ledger.start]

/-- What a run records is, up to its order, what its visits record. -/
theorem left_entries_perm : (q.left schedule suppressions).entries.Perm
    (q.warnings ++ (q.plan suppressions).flatMap fun v => v.trace.recorded) := by
  rw [left_entries, List.append_assoc]
  refine List.Perm.append_left _ ?_
  have later := (schedule.perm ((q.plan suppressions).flatMap fun v => v.trace.pending)).flatMap_right
    Pending.recorded
  rw [List.flatMap_assoc] at later
  exact (later.append_left _).trans (List.flatMap_append_perm _ _ _)

end

/-- A request with some of its rules only. -/
def only (q : RunRequest) (mine : Rule → Bool) : RunRequest :=
  { q with rules := q.rules.filter mine }

theorem buckets_only (q : RunRequest) (mine : Rule → Bool) :
    (q.only mine).buckets = ⟨q.buckets.resolved.filter mine, q.buckets.unresolved.filter mine,
      q.buckets.plain.filter mine⟩ := by
  simp only [only, buckets, RuleBuckets.select, List.filter_filter, RuleBuckets.mk.injEq]
  refine ⟨?_, ?_, ?_⟩
  all_goals
    congr 1
    funext r
    ac_rfl

/-- What a plan has for some of the rules is the plan for them alone. -/
theorem plan_only (q : RunRequest) (suppressions : Suppressions) (mine : Rule → Bool) :
    (q.plan suppressions).filter (fun v => mine v.rule) = (q.only mine).plan suppressions := by
  have walks : q.walked.filter (fun t => mine t.1) = (q.only mine).walked := by
    simp only [walked, List.filter_append, Walk.notices_filter_rules, buckets_only]
    rfl
  have queries : (q.buckets.plain.flatMap fun r => ((q.opened suppressions).queried r).map
      ((q.opened suppressions).visit r)).filter (fun v => mine v.rule) =
        (q.buckets.plain.filter mine).flatMap fun r => ((q.opened suppressions).queried r).map
          ((q.opened suppressions).visit r) := by
    refine filter_flatMap_of_agree fun r _ v visited => ?_
    obtain ⟨node, _, rfl⟩ := List.mem_map.mp visited
    rfl
  rw [plan, List.filter_append, queries, List.filter_map, plan, buckets_only, ← walks]
  rfl

section
variable {q : RunRequest} {suppressions : Suppressions}

/-- The rules of the shared walks are admitted ones. -/
theorem rule_of_walked {t : Rule × GivenNode} (told : t ∈ q.walked) :
    t.1 ∈ q.rules ∧ t.1.isAdmitted q.context.inventory.formats = true := by
  have bucket : t.1 ∈ q.rules.filter (·.isAdmitted q.context.inventory.formats) := by
    rcases List.mem_append.mp told with resolved | written
    · exact (List.mem_filter.mp (Walk.rule_of_mem_notices resolved)).1
    · exact (List.mem_filter.mp (Walk.rule_of_mem_notices written)).1
  exact List.mem_filter.mp bucket

/-- The rules that are evaluated through queries are admitted ones. -/
theorem rule_of_plain {r : Rule} (queried : r ∈ q.buckets.plain) :
    r ∈ q.rules ∧ r.isAdmitted q.context.inventory.formats = true :=
  List.mem_filter.mp (List.mem_filter.mp queried).1

/-- The visits of a plan are visits for admitted rules. -/
theorem visit_of_mem_plan {v : Visit} (planned : v ∈ q.plan suppressions) :
    (v.rule ∈ q.rules ∧ v.rule.isAdmitted q.context.inventory.formats = true) ∧
      v = (q.opened suppressions).visit v.rule v.node := by
  rcases List.mem_append.mp planned with walked | queried
  · obtain ⟨t, told, rfl⟩ := List.mem_map.mp walked
    exact ⟨rule_of_walked told, rfl⟩
  · obtain ⟨r, member, visited⟩ := List.mem_flatMap.mp queried
    obtain ⟨node, _, rfl⟩ := List.mem_map.mp visited
    exact ⟨rule_of_plain member, rfl⟩

/-- All that a visit of a plan records carries the path of its node and the name of its rule. -/
theorem tags_of_mem_plan {v : Visit} (planned : v ∈ q.plan suppressions) {e : Entry}
    (recorded : e ∈ v.trace.recorded) :
    e.node = v.node.documentPath ∧ e.diagnostic.code = v.rule.name := by
  rw [(visit_of_mem_plan planned).2] at recorded
  exact q.context.mem_recorded_lintNode _ _ recorded

/-- All that a visit of a plan records is at paths through that of its node. -/
theorem prefix_of_mem_plan {v : Visit} (planned : v ∈ q.plan suppressions) {e : Entry}
    (recorded : e ∈ v.trace.recorded) : v.node.documentPath <+: e.diagnostic.path := by
  rw [(visit_of_mem_plan planned).2] at recorded
  exact q.context.prefix_of_mem_lintNode _ _ recorded

/-- A visit for a rule whose checks answer at once leaves none pending. -/
theorem pending_of_mem_plan {v : Visit} (planned : v ∈ q.plan suppressions)
    (synchronous : v.rule.IsSynchronous) : v.trace.pending = [] := by
  rw [(visit_of_mem_plan planned).2]
  exact q.context.lintNode_pending_of_synchronous _ _ synchronous

end

/-- Without a check that answers later nothing is recorded but what visits record at once. -/
theorem left_entries_of_synchronous (q : RunRequest) (schedule : Schedule) (suppressions : Suppressions)
    (synchronous : ∀ r ∈ q.rules, r.isAdmitted q.context.inventory.formats = true → r.IsSynchronous) :
    (q.left schedule suppressions).entries =
      q.warnings ++ (q.plan suppressions).flatMap fun v => v.trace.entries := by
  have none : ((q.plan suppressions).flatMap fun v => v.trace.pending) = [] := by
    refine List.flatMap_eq_nil_iff.mpr fun v planned => ?_
    obtain ⟨member, admitted⟩ := (visit_of_mem_plan planned).1
    exact pending_of_mem_plan planned (synchronous v.rule member admitted)
  have unordered : schedule.order [] = [] := (schedule.perm []).eq_nil
  rw [left_entries, none, unordered, List.flatMap_nil, List.append_nil]

end RunRequest
end DocLint
