import DocLint.Proofs.Run.Outcome

/-!
# Rules by themselves

What a rule records does not depend on the other rules of a run: they only share a walk, whose depth limit
and order leave each of them its nodes, and lists that each adds to. So another rule under some name, or
none, leaves what the others record as it is, whatever that rule does (`runBy_isolated`).
-/
namespace DocLint

/-- The diagnostics of some names are those of the entries of these names. -/
theorem Ledger.filter_diagnostics (l : Ledger) (mine : String → Bool) :
    (l.diagnostics.filter fun d => mine d.code) =
      (l.entries.filter fun e => mine e.diagnostic.code).map Entry.diagnostic :=
  List.filter_map

namespace RunRequest

/-- A plan depends on the suppressions of its rules only. -/
theorem plan_congr {q : RunRequest} {suppressions suppressions' : Suppressions}
    (alike : ∀ r ∈ q.rules, suppressions.lookup r.name = suppressions'.lookup r.name) :
    q.plan suppressions = q.plan suppressions' := by
  have locations : ∀ r ∈ q.rules, (q.opened suppressions).locationsOf r.name =
      (q.opened suppressions').locationsOf r.name := by
    intro r member
    simp only [Ledger.locationsOf, opened, Ledger.start, alike r member]
  have visits : ∀ r ∈ q.rules, (q.opened suppressions).visit r = (q.opened suppressions').visit r := by
    intro r member
    funext node
    rw [Ledger.visit, Ledger.visit, locations r member]
    rfl
  unfold plan
  refine congrArg₂ (· ++ ·) ?_ ?_
  · refine List.map_congr_left fun t told => ?_
    rw [visits t.1 (rule_of_walked told).1]
  · refine List.flatMap_congr fun r queried => ?_
    have member := (rule_of_plain queried).1
    rw [visits r member, Ledger.queried, Ledger.queried, locations r member]
    rfl

/-- In another order of the rules a plan has the same visits. -/
theorem plan_perm (q : RunRequest) (suppressions : Suppressions) {rules : List Rule}
    (perm : q.rules.Perm rules) :
    (q.plan suppressions).Perm (({ q with rules } : RunRequest).plan suppressions) := by
  have admitted := perm.filter (·.isAdmitted q.context.inventory.formats)
  refine List.Perm.append ?_ ?_
  · refine List.Perm.map _ (List.Perm.append ?_ ?_)
    · exact Walk.notices_perm (admitted.filter _) _
    · exact Walk.notices_perm (admitted.filter _) _
  · exact (admitted.filter fun r => !r.isPrecompiled).flatMap_right _

/-- The suppressions of a rule do not depend on which other rules a run has. -/
theorem Suppresses.lookup_congr {q : RunRequest} {rules : List Rule}
    {suppressions suppressions' : Suppressions} (suppressed : q.Suppresses suppressions)
    (suppressed' : ({ q with rules } : RunRequest).Suppresses suppressions') {name : String}
    (alike : name ∈ q.rules.map Rule.name ↔ name ∈ rules.map Rule.name) :
    suppressions.lookup name = suppressions'.lookup name := by
  unfold Suppresses at suppressed suppressed'
  cases stream : q.context.inventory.document.isStream with
  | true =>
    simp only [stream, if_true] at suppressed suppressed'
    rw [suppressed, suppressed']
  | false =>
    simp only [stream, Bool.false_eq_true, if_false] at suppressed suppressed'
    exact Declarations.lookup_pivot_congr suppressed suppressed' alike

section
variable (q : RunRequest) (schedule : Schedule) (suppressions : Suppressions)

/-- Of the diagnostics of some names, a run records those of its rules of these names. -/
theorem filter_recorded (mine : String → Bool) (part : Trace → List Entry)
    (among : ∀ t, ∀ e ∈ part t, e ∈ t.recorded) :
    ((q.plan suppressions).flatMap fun v => part v.trace).filter (fun e => mine e.diagnostic.code) =
      ((q.only fun r => mine r.name).plan suppressions).flatMap fun v => part v.trace := by
  rw [← plan_only q suppressions fun r => mine r.name]
  refine filter_flatMap_of_agree fun v planned e member => ?_
  rw [(tags_of_mem_plan planned (among v.trace e member)).2]

/-- The diagnostics of some names are, up to their order, those that the visits for the rules of these
names record. -/
theorem filter_left_entries_perm (mine : String → Bool) :
    ((q.left schedule suppressions).entries.filter fun e => mine e.diagnostic.code).Perm
      (q.warnings.filter (fun e => mine e.diagnostic.code) ++
        ((q.only fun r => mine r.name).plan suppressions).flatMap fun v => v.trace.recorded) := by
  have all := (left_entries_perm q schedule suppressions).filter fun e => mine e.diagnostic.code
  rwa [List.filter_append, q.filter_recorded suppressions mine Trace.recorded fun _ _ => id] at all

/-- When all rules of some names answer at once, the diagnostics of these names are recorded in the
order of the visits. -/
theorem filter_left_entries (mine : String → Bool)
    (synchronous : ∀ r ∈ q.rules, mine r.name = true → r.IsSynchronous) :
    (q.left schedule suppressions).entries.filter (fun e => mine e.diagnostic.code) =
      q.warnings.filter (fun e => mine e.diagnostic.code) ++
        ((q.only fun r => mine r.name).plan suppressions).flatMap fun v => v.trace.entries := by
  have atOnce := q.filter_recorded suppressions mine Trace.entries
    fun t e member => List.mem_append_left _ member
  have later : ((schedule.order ((q.plan suppressions).flatMap fun v => v.trace.pending)).flatMap
      Pending.recorded).filter (fun e => mine e.diagnostic.code) = [] := by
    refine List.filter_eq_nil_iff.mpr fun e member picked => ?_
    obtain ⟨p, ordered, recorded⟩ := List.mem_flatMap.mp member
    obtain ⟨v, planned, started⟩ := List.mem_flatMap.mp ((schedule.perm _).mem_iff.mp ordered)
    have tagged := tags_of_mem_plan planned
      (List.mem_append_right _ (List.mem_flatMap.mpr ⟨p, started, recorded⟩))
    have none := pending_of_mem_plan planned (synchronous v.rule (visit_of_mem_plan planned).1.1 (by
      rw [← tagged.2]
      exact picked))
    rw [none] at started
    cases started
  rw [left_entries, List.filter_append, List.filter_append, atOnce, later, List.append_nil]

end

/-- When the rules of two runs are the same but for those of one name, the visits for the rules of other
names are the same with the suppressions of either run. -/
theorem plan_others {q : RunRequest} {rules : List Rule} {suppressions suppressions' : Suppressions}
    (suppressed : q.Suppresses suppressions)
    (suppressed' : ({ q with rules } : RunRequest).Suppresses suppressions') {name : String}
    (others : (q.rules.filter fun r => r.name != name).Perm (rules.filter fun r => r.name != name)) :
    (q.only fun r => r.name != name).plan suppressions =
      (q.only fun r => r.name != name).plan suppressions' := by
  refine plan_congr fun r member => suppressed.lookup_congr suppressed' ?_
  have member' := others.mem_iff.mp member
  exact iff_of_true (List.mem_map.mpr ⟨r, (List.mem_filter.mp member).1, rfl⟩)
    (List.mem_map.mpr ⟨r, (List.mem_filter.mp member').1, rfl⟩)

/-- Two runs whose rules differ under one name only, in whatever way, both come to their end, and the
diagnostics of the other rules are the same: as many of each, and in the same order when these rules
are in the same order and answer at once. What is on the switchboard and when checks answer may differ
as well. -/
theorem runBy_isolated (b b' : Switchboard) (schedule schedule' : Schedule) (q : RunRequest)
    (rules : List Rule) (name : String)
    (legible : q.declarations.Legible q.context.workingDir q.baseDir)
    (others : (q.rules.filter fun r => r.name != name).Perm (rules.filter fun r => r.name != name)) :
    ∃ diagnostics diagnostics', (b.runBy schedule q).2.result = .ok diagnostics ∧
      (b'.runBy schedule' { q with rules }).2.result = .ok diagnostics' ∧
      (diagnostics.filter fun d => d.code != name).Perm
        (diagnostics'.filter fun d => d.code != name) ∧
      ((q.rules.filter fun r => r.name != name) = (rules.filter fun r => r.name != name) →
        (∀ r ∈ q.rules, r.name ≠ name → r.IsSynchronous) →
          (diagnostics.filter fun d => d.code != name) =
            diagnostics'.filter fun d => d.code != name) := by
  obtain ⟨suppressions, suppressed⟩ := exists_suppresses q legible
  obtain ⟨suppressions', suppressed'⟩ := exists_suppresses { q with rules } legible
  have alike := plan_others suppressed suppressed' others
  refine ⟨_, _, runBy_result b schedule suppressed, runBy_result b' schedule' suppressed', ?_, ?_⟩
  · rw [Ledger.filter_diagnostics _ (· != name), Ledger.filter_diagnostics _ (· != name)]
    have first := filter_left_entries_perm q schedule suppressions (· != name)
    have second := filter_left_entries_perm { q with rules } schedule' suppressions' (· != name)
    have between := (plan_perm (q.only fun r => r.name != name) suppressions' others).flatMap_right
      fun v => v.trace.recorded
    rw [alike] at first
    exact (first.trans ((between.append_left _).trans second.symm)).map _
  · intro sameOthers synchronous
    rw [Ledger.filter_diagnostics _ (· != name), Ledger.filter_diagnostics _ (· != name)]
    have first := filter_left_entries q schedule suppressions (· != name) fun r member other =>
      synchronous r member (by simpa using other)
    have second := filter_left_entries { q with rules } schedule' suppressions' (· != name)
      fun r member other => by
        have kept : r ∈ rules.filter fun r => r.name != name := List.mem_filter.mpr ⟨member, other⟩
        rw [← sameOthers] at kept
        exact synchronous r (List.mem_filter.mp kept).1 (by simpa using other)
    have same : q.only (fun r => r.name != name) =
        ({ q with rules } : RunRequest).only fun r => r.name != name := by
      simp only [only, sameOthers]
    rw [first, second, alike, same]
    rfl

/-- A rule whose first check fails on every node below the root. -/
def breaking : Rule :=
  { Rule.standard "breaking" [] with
    actions := [⟨"late", fun _ _ _ => .later 2 (.error (.aborted "late")), none, none⟩,
      ⟨"broken", fun _ _ _ => .failed (.aborted "broken"), none, none⟩]
    strategy := .walk [⟨"$..*", [.descend, .any]⟩] }

/-- A rule that finds fault with the parts of the root. -/
def watchful : Rule :=
  { Rule.standard "watchful" [] with
    actions := [⟨"watch", fun _ _ _ => .problem "seen", none, none⟩]
    strategy := .walk [⟨"$.*", [.any]⟩] }

/-- A run with a rule that fails, and suppressions for both rules. -/
def troubled : RunRequest where
  context :=
    { inventory := .ofDocument .sharing none none
      query := fun _ _ => .failed (.aborted "no query")
      workingDir := "/" }
  rules := [breaking, watchful]
  declarations := [("breaking", ["#"]), ("watchful", ["#/a"])]
  baseDir := none

theorem troubled_isolated :
    ∃ diagnostics diagnostics',
      (Switchboard.empty.runBy .byTurns troubled).2.result = .ok diagnostics ∧
      (Switchboard.empty.runBy .byTurns { troubled with rules := [watchful] }).2.result =
        .ok diagnostics' ∧
      (diagnostics.filter fun d => d.code != "breaking") =
        (diagnostics'.filter fun d => d.code != "breaking") ∧
      diagnostics'.map Diagnostic.path = [[.str "b"]] := by
  have legible : troubled.declarations.Legible troubled.context.workingDir troubled.baseDir := by
    simp only [troubled, Declarations.Legible, List.forall_mem_cons]
    exact ⟨⟨⟨_, rfl⟩, by simp⟩, ⟨⟨_, rfl⟩, by simp⟩, by simp⟩
  have atOnce : watchful.IsSynchronous := by
    intro action only v options context turns result
    cases List.mem_singleton.mp only
    exact Outcome.noConfusion
  obtain ⟨diagnostics, diagnostics', first, second, _, same⟩ := runBy_isolated Switchboard.empty
    Switchboard.empty .byTurns .byTurns troubled [watchful] "breaking" legible (List.Perm.refl _)
  have found : ((Switchboard.empty.runBy .byTurns { troubled with rules := [watchful] }).2.result
      |>.toOption.map fun diagnostics => diagnostics.map Diagnostic.path) = some [[.str "b"]] := by
    decide +kernel
  rw [second] at found
  refine ⟨diagnostics, diagnostics', first, second, same rfl ?_, Option.some.inj found⟩
  intro r member other
  rcases List.mem_cons.mp member with rfl | later
  · exact absurd rfl other
  · cases List.mem_singleton.mp later
    exact atOnce

end RunRequest
end DocLint
