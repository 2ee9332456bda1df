import DocLint.Proofs.Run.Outcome

/-!
# Suppression as a filter

A run with suppressions lints the nodes that it lints without them, starts the same checks and fails in
the same places (`plan_suppressed`). What it records is what the other run records, without the entries
that a location declared for their rule excepts, by the path of their node or by their own
(`runBy_excepts`).
-/
namespace DocLint

/-- The entries that were recorded at once, by checks that do not answer later. -/
def Ledger.atOnce (l : Ledger) : List Entry :=
  l.visits.flatMap fun v => v.trace.entries

namespace RunRequest

/-- Whether a location is the path of an entry's node or of its diagnostic: the texts of its segments are
the same, and it has no source or the document's canonical one. -/
def isAt (q : RunRequest) (l : Location) (e : Entry) : Bool :=
  (l.source.isNone || l.source ==
    q.context.inventory.document.source.map (FileName.canonical q.context.workingDir none)) &&
  (l.path == e.node.texts || l.path == e.diagnostic.path.texts)

/-- Whether a location that is declared for the rule of an entry is its path. -/
def excepts (q : RunRequest) (e : Entry) : Bool :=
  q.declarations.any fun declared =>
    declared.1 == e.diagnostic.code && declared.2.any fun written =>
      (Location.parse q.context.workingDir q.baseDir written).toOption.any fun l => q.isAt l e

/-- The visit that a run with suppressions makes in the place of one without. -/
def suppressed (q : RunRequest) (suppressions : Suppressions) (v : Visit) : Visit :=
  { v with trace := v.trace.keep (q.context.keeps ((suppressions.lookup v.rule.name).getD [])) }

theorem isAt_eq (q : RunRequest) (l : Location) (e : Entry) :
    q.isAt l e = (l.covers q.context.workingDir q.context.inventory.document.source e.node ||
      l.covers q.context.workingDir q.context.inventory.document.source e.diagnostic.path) := by
  have sourced : l.coversSource q.context.workingDir q.context.inventory.document.source =
      (l.source.isNone || l.source ==
        q.context.inventory.document.source.map (FileName.canonical q.context.workingDir none)) := by
    rw [Location.coversSource]
    cases l.source with
    | none => rfl
    | some own =>
      cases q.context.inventory.document.source with
      | none => rfl
      | some place => simp [BEq.comm]
  rw [isAt, Location.covers, Location.covers, sourced, Bool.and_or_distrib_left]

theorem excepts_iff (q : RunRequest) (e : Entry) :
    q.excepts e = true ↔ ∃ l, (∃ declared ∈ q.declarations, declared.1 = e.diagnostic.code ∧
      ∃ written ∈ declared.2, Location.parse q.context.workingDir q.baseDir written = .ok l) ∧
        q.isAt l e = true := by
  have read : ∀ written, ((Location.parse q.context.workingDir q.baseDir written).toOption.any
      fun l => q.isAt l e) = true ↔
        ∃ l, Location.parse q.context.workingDir q.baseDir written = .ok l ∧ q.isAt l e = true := by
    intro written
    cases Location.parse q.context.workingDir q.baseDir written <;> simp [Except.toOption]
  simp only [excepts, List.any_eq_true, Bool.and_eq_true, beq_iff_eq, read]
  constructor
  · rintro ⟨declared, member, own, written, among, l, parsed, here⟩
    exact ⟨l, ⟨declared, member, own, written, among, parsed⟩, here⟩
  · rintro ⟨l, ⟨declared, member, own, written, among, parsed⟩, here⟩
    exact ⟨declared, member, own, written, among, l, parsed, here⟩

section
variable {q : RunRequest} {suppressions : Suppressions}

/-- Of a known rule's entries a run keeps those that are not excepted. -/
theorem keeps_eq (placed : q.context.inventory.document.isStream = false)
    (legible : q.declarations.Legible q.context.workingDir q.baseDir)
    (declaredOnce : (q.declarations.map Prod.fst).Nodup)
    (suppresses : q.Suppresses suppressions) {e : Entry}
    (known : e.diagnostic.code ∈ q.rules.map Rule.name) :
    q.context.keeps ((suppressions.lookup e.diagnostic.code).getD []) e = !q.excepts e := by
  simp only [Suppresses, placed, Bool.false_eq_true, if_false] at suppresses
  have declared := Declarations.mem_locations_pivot legible declaredOnce known suppresses
  have met : q.context.suppresses ((suppressions.lookup e.diagnostic.code).getD []) e.node
      e.diagnostic.path = true ↔ q.excepts e = true := by
    simp only [excepts_iff, ← declared, isAt_eq, RunContext.suppresses, Location.anyCovers,
      Bool.or_eq_true, List.any_eq_true, ← exists_or, ← and_or_left]
  rw [RunContext.keeps, Bool.eq_iff_iff.mpr met]

/-- A run with suppressions makes the visits of the run without them, with the same checks and failures,
and records of each what is kept. -/
theorem plan_suppressed (ranged : q.context.inventory.document.HasRanges) :
    q.plan suppressions = (q.plan []).map (q.suppressed suppressions) := by
  have visits : ∀ r node, (q.opened suppressions).visit r node =
      q.suppressed suppressions ((q.opened []).visit r node) := by
    intro r node
    have trace := q.context.lintNode_suppressed r ((q.opened suppressions).locationsOf r.name)
      ranged node
    exact congrArg (Visit.mk r node) trace
  have queried : ∀ r, (q.opened suppressions).queried r = (q.opened []).queried r := by
    intro r
    have fails : q.context.failsOn r ((q.opened suppressions).locationsOf r.name) =
        q.context.failsOn r [] := by
      funext node
      simp only [RunContext.failsOn, RunContext.visit]
      rw [q.context.lintNode_suppressed r _ ranged node]
      rfl
    exact congrArg (fun f => linted f [] _) fails
  rw [plan, plan, List.map_append, List.map_map, List.map_flatMap]
  refine congrArg₂ (· ++ ·) ?_ ?_
  · exact List.map_congr_left fun t _ => visits t.1 t.2
  · refine List.flatMap_congr fun r _ => ?_
    rw [List.map_map, queried r]
    exact List.map_congr_left fun node _ => visits r node

/-- What the visits of a run record is what those without suppressions do, without what is excepted. -/
theorem flatMap_plan (placed : q.context.inventory.document.isStream = false)
    (ranged : q.context.inventory.document.HasRanges)
    (legible : q.declarations.Legible q.context.workingDir q.baseDir)
    (declaredOnce : (q.declarations.map Prod.fst).Nodup)
    (suppresses : q.Suppresses suppressions) (part : Trace → List Entry)
    (among : ∀ t, ∀ e ∈ part t, e ∈ t.recorded)
    (filtered : ∀ t kept, part (t.keep kept) = (part t).filter kept) :
    ((q.plan suppressions).flatMap fun v => part v.trace) =
      ((q.plan []).flatMap fun v => part v.trace).filter fun e => !q.excepts e := by
  rw [plan_suppressed ranged, List.flatMap_map, List.filter_flatMap]
  refine List.flatMap_congr fun v planned => ?_
  have own := (visit_of_mem_plan planned).1.1
  rw [suppressed, filtered]
  refine List.filter_congr fun e member => ?_
  have named := (tags_of_mem_plan planned (among v.trace e member)).2
  rw [← named]
  refine keeps_eq placed legible declaredOnce suppresses ?_
  rw [named]
  exact List.mem_map.mpr ⟨v.rule, own, rfl⟩

end

theorem warnings_of_placed (q : RunRequest)
    (placed : q.context.inventory.document.isStream = false) : q.warnings = [] := by
  simp [warnings, placed]

/-- For a document that has a place nothing is recorded before what visits record at once. -/
theorem atOnce_leads (q : RunRequest) (schedule : Schedule) (suppressions : Suppressions)
    (placed : q.context.inventory.document.isStream = false) :
    (q.left schedule suppressions).atOnce <+: (q.left schedule suppressions).entries := by
  rw [Ledger.atOnce, left_visits, left_entries, warnings_of_placed q placed, List.nil_append]
  exact List.prefix_append _ _

/-- Without a check that answers later nothing else is recorded. -/
theorem atOnce_of_synchronous (q : RunRequest) (schedule : Schedule) (suppressions : Suppressions)
    (placed : q.context.inventory.document.isStream = false)
    (synchronous : ∀ r ∈ q.rules, r.IsSynchronous) :
    (q.left schedule suppressions).entries = (q.left schedule suppressions).atOnce := by
  rw [Ledger.atOnce, left_visits,
    left_entries_of_synchronous q schedule suppressions fun r member _ => synchronous r member,
    warnings_of_placed q placed, List.nil_append]

/-- A run of a document that has a place records what a run without declarations records, without the
entries that are excepted. Every entry of the latter is one of a rule of the run and of a node linted for
it, so declarations for other names except nothing, and what a rule is excepted from stays with the other
rules. What is recorded at once stays in order. -/
theorem runBy_excepts (b b' : Switchboard) (schedule schedule' : Schedule) (q : RunRequest)
    (placed : q.context.inventory.document.isStream = false)
    (ranged : q.context.inventory.document.HasRanges)
    (legible : q.declarations.Legible q.context.workingDir q.baseDir)
    (declaredOnce : (q.declarations.map Prod.fst).Nodup) :
    ∃ ledger plain, (b.runBy schedule q).2.outcome = .ok ledger ∧
      (b'.runBy schedule' { q with declarations := [] }).2.outcome = .ok plain ∧
      (∀ e ∈ plain.entries, ∃ v ∈ plain.visits, e ∈ v.trace.recorded ∧
        v.rule ∈ q.rules ∧ e.diagnostic.code = v.rule.name ∧ e.node = v.node.documentPath) ∧
      ledger.entries.Perm (plain.entries.filter fun e => !q.excepts e) ∧
      ledger.atOnce = plain.atOnce.filter (fun e => !q.excepts e) ∧
      (ledger.atOnce <+: ledger.entries ∧ plain.atOnce <+: plain.entries) ∧
      ((∀ r ∈ q.rules, r.IsSynchronous) →
        ledger.entries = plain.entries.filter fun e => !q.excepts e) := by
  obtain ⟨suppressions, suppresses⟩ := exists_suppresses q legible
  have free : ({ q with declarations := [] } : RunRequest).Suppresses [] := by
    simp only [Suppresses, placed]
    rfl
  have filtered := flatMap_plan placed ranged legible declaredOnce suppresses
  have recorded := left_entries_perm q schedule suppressions
  have recorded' := left_entries_perm { q with declarations := [] } schedule' []
  rw [warnings_of_placed q placed, List.nil_append] at recorded
  rw [warnings_of_placed { q with declarations := [] } placed, List.nil_append] at recorded'
  have inOrder : (q.left schedule suppressions).atOnce =
      (({ q with declarations := [] } : RunRequest).left schedule' []).atOnce.filter
        fun e => !q.excepts e := by
    rw [Ledger.atOnce, Ledger.atOnce, left_visits, left_visits]
    exact filtered Trace.entries (fun _ _ => List.mem_append_left _) fun _ _ => rfl
  refine ⟨_, _, runBy_outcome b schedule suppresses, runBy_outcome b' schedule' free,
    ?_, ?_, ?_, ⟨atOnce_leads _ _ _ placed, atOnce_leads _ _ _ placed⟩, ?_⟩
  · intro e member
    obtain ⟨v, planned, here⟩ := List.mem_flatMap.mp (recorded'.mem_iff.mp member)
    have tagged := tags_of_mem_plan planned here
    rw [left_visits]
    exact ⟨v, planned, here, (visit_of_mem_plan planned).1.1, tagged.2, tagged.1⟩
  · rw [filtered Trace.recorded (fun _ _ => id) Trace.recorded_keep] at recorded
    exact recorded.trans (recorded'.symm.filter _)
  · exact inOrder
  · intro synchronous
    have all := atOnce_of_synchronous q schedule suppressions placed synchronous
    have all' := atOnce_of_synchronous { q with declarations := [] } schedule' [] placed synchronous
    rw [all, all']
    exact inOrder

/-- A rule with a name that finds fault with the parts of the root, and once more later. -/
def twiceOver (name : String) : Rule :=
  { Rule.standard name [] with
    actions := [⟨"now", fun _ _ _ => .problem "now", none, none⟩,
      ⟨"later", fun _ _ _ => .later 1 (.ok (some [⟨"later", [.str "x"]⟩])), none, none⟩]
    strategy := .walk [⟨"$.*", [.any]⟩] }

/-- A run that leaves out what one of two rules finds at a node, and at a path below another node. What is
declared for a rule that it does not have is without effect. -/
def excused : RunRequest where
  context :=
    { inventory := .ofDocument .sharing none none
      query := fun _ _ => .failed (.aborted "no query")
      workingDir := "/" }
  rules := [twiceOver "first", twiceOver "second"]
  declarations := [("first", ["api.yaml#/a", "#/b/x"]), ("absent", ["#/a"])]
  baseDir := none

theorem excused_excepts :
    ∃ ledger plain, (Switchboard.empty.runBy .byTurns excused).2.outcome = .ok ledger ∧
      (Switchboard.empty.runBy .byTurns { excused with declarations := [] }).2.outcome = .ok plain ∧
      ledger.entries.Perm (plain.entries.filter fun e => !excused.excepts e) ∧
      ledger.atOnce = (plain.atOnce.filter fun e => !excused.excepts e) ∧
      (ledger.atOnce.map fun e => (e.diagnostic.code, e.diagnostic.path)) =
        [("second", [.str "a"]), ("first", [.str "b"]), ("second", [.str "b"])] := by
  have legible : excused.declarations.Legible excused.context.workingDir excused.baseDir := by
    simp only [excused, Declarations.Legible, List.forall_mem_cons]
    exact ⟨⟨⟨_, rfl⟩, ⟨_, rfl⟩, by simp⟩, ⟨⟨_, rfl⟩, by simp⟩, by simp⟩
  obtain ⟨ledger, plain, outcome, outcome', _, same, inOrder, _⟩ := runBy_excepts Switchboard.empty
    Switchboard.empty .byTurns .byTurns excused rfl ⟨_, rfl⟩ legible (by decide)
  have kept : ((Switchboard.empty.runBy .byTurns excused).2.outcome.toOption.map fun l =>
      l.atOnce.map fun e => (e.diagnostic.code, e.diagnostic.path)) =
        some [("second", [.str "a"]), ("first", [.str "b"]), ("second", [.str "b"])] := by
    decide +kernel
  rw [outcome] at kept
  exact ⟨ledger, plain, outcome, outcome', same, inOrder, Option.some.inj kept⟩

end RunRequest
end DocLint
