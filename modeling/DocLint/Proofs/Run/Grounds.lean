import DocLint.Proofs.Run.Waiting

/-!
# What diagnostics rest on

Every entry that linting a node records rests on that visit (`Entry.RestsOn`): it says which rule found the
problem and how grave it is, where the document comes from and where in it the problem is, and no location
at which the rule is suppressed is the place of either the node or the problem. A ledger is grounded when
this holds of all that it has recorded and of all that its checks have yet to record. Visits of admitted
rules keep a ledger grounded (`Ledger.Grounded.lint`), and so do answers of its checks
(`Ledger.Grounded.answer`).
-/
namespace DocLint

/-- An entry for which a visit accounts. The visit is one of a rule that takes part in the run. -/
structure Entry.RestsOn (e : Entry) (q : RunRequest) (suppressions : Suppressions) (v : Visit) :
    Prop where
  rule : v.rule ∈ q.rules
  admitted : v.rule.isAdmitted q.context.inventory.formats = true
  code : e.diagnostic.code = v.rule.name
  severity : e.diagnostic.severity = v.rule.severity
  source : e.diagnostic.source = q.context.inventory.document.source
  range : q.context.inventory.document.rangeAt e.diagnostic.path = .ok e.diagnostic.range
  below : v.node.documentPath <+: e.diagnostic.path
  /-- No location of the rule is the path of the node or of the diagnostic. -/
  unexcepted : ∀ l ∈ (suppressions.lookup v.rule.name).getD [], ∀ path,
    path = v.node.documentPath ∨ path = e.diagnostic.path →
      l.covers q.context.workingDir q.context.inventory.document.source path = false

namespace RunContext
variable (c : RunContext) (rule : Rule) (locations : List Location)

/-- What linting a node leaves has the severity of the rule, the place of the document and the range of its
path, and is not suppressed. -/
theorem stamps_of_mem_lintNode {node : GivenNode} {e : Entry}
    (found : e ∈ (c.lintNode rule locations node).recorded) :
    e.diagnostic.severity = rule.severity ∧
      e.diagnostic.source = c.inventory.document.source ∧
      c.inventory.document.rangeAt e.diagnostic.path = .ok e.diagnostic.range ∧
      c.suppresses locations node.documentPath e.diagnostic.path = false := by
  obtain ⟨action, _, targets, target, _, _, here⟩ := c.target_of_mem_lintNode rule locations found
  obtain ⟨answer, entries, _, kept, member⟩ := c.record_of_mem_lintTarget rule locations here
  obtain ⟨finding, _, range, unsuppressed, placed, rfl⟩ :=
    c.exists_finding_of_mem_record rule locations kept member
  exact ⟨rfl, rfl, placed, unsuppressed⟩

/-- Where nothing is suppressed no location is the place. -/
theorem covers_of_not_suppresses {nodePath path : Path}
    (unsuppressed : c.suppresses locations nodePath path = false) {l : Location}
    (member : l ∈ locations) :
    l.covers c.workingDir c.inventory.document.source nodePath = false ∧
      l.covers c.workingDir c.inventory.document.source path = false := by
  simp only [suppresses, Location.anyCovers, Bool.or_eq_false_iff, List.any_eq_false,
    Bool.not_eq_true] at unsuppressed
  exact ⟨unsuppressed.1 l member, unsuppressed.2 l member⟩

end RunContext

namespace Ledger

/-- A ledger of a run all of whose entries, but for the warning at its start, rest on visits, and so does what
its checks have yet to record. -/
structure Grounded (q : RunRequest) (suppressions : Suppressions) (l : Ledger) : Prop where
  context : l.context = q.context
  suppressed : l.suppressions = suppressions
  entries : ∃ found, l.entries = q.warnings ++ found ∧
    ∀ e ∈ found, ∃ v ∈ l.visits, e.RestsOn q suppressions v
  pending : ∀ p ∈ l.pending, ∀ e ∈ p.recorded, ∃ v ∈ l.visits, e.RestsOn q suppressions v

variable {q : RunRequest} {suppressions : Suppressions} {l : Ledger}

theorem grounded_opened (q : RunRequest) (suppressions : Suppressions) :
    (q.opened suppressions).Grounded q suppressions where
  context := rfl
  suppressed := rfl
  entries := ⟨[], (List.append_nil _).symm, by simp⟩
  pending := by simp [RunRequest.opened, start]

/-- What a visit of an admitted rule records rests on it. -/
theorem Grounded.restsOn_visit (grounded : l.Grounded q suppressions) {r : Rule} (member : r ∈ q.rules)
    (admitted : r.isAdmitted q.context.inventory.formats = true) {node : GivenNode} {e : Entry}
    (recorded : e ∈ (l.visit r node).trace.recorded) :
    e.RestsOn q suppressions (l.visit r node) := by
  have found : e ∈ (q.context.lintNode r (l.locationsOf r.name) node).recorded :=
    grounded.context ▸ recorded
  obtain ⟨severity, source, range, unsuppressed⟩ := q.context.stamps_of_mem_lintNode _ _ found
  exact {
    rule := member
    admitted
    code := (q.context.mem_recorded_lintNode _ _ found).2
    severity
    source
    range
    below := q.context.prefix_of_mem_lintNode _ _ found
    unexcepted := by
      rw [← grounded.suppressed]
      intro location listed path place
      have uncovered := q.context.covers_of_not_suppresses _ unsuppressed listed
      rcases place with rfl | rfl
      · exact uncovered.1
      · exact uncovered.2 }

/-- Linting a node for an admitted rule keeps a ledger grounded, however it ends. -/
theorem Grounded.lint (grounded : l.Grounded q suppressions) {r : Rule} (member : r ∈ q.rules)
    (admitted : r.isAdmitted q.context.inventory.formats = true) (node : GivenNode) :
    (l.afterAll [l.visit r node]).Grounded q suppressions := by
  have earlier : ∀ {e : Entry}, (∃ v ∈ l.visits, e.RestsOn q suppressions v) →
      ∃ v ∈ l.visits ++ [l.visit r node], e.RestsOn q suppressions v := fun ⟨v, visited, rests⟩ =>
    ⟨v, List.mem_append_left _ visited, rests⟩
  have now : ∀ {e : Entry}, e ∈ (l.visit r node).trace.recorded →
      ∃ v ∈ l.visits ++ [l.visit r node], e.RestsOn q suppressions v := fun recorded =>
    ⟨_, List.mem_append_right _ (List.mem_singleton_self _),
      grounded.restsOn_visit member admitted recorded⟩
  obtain ⟨found, whole, rest⟩ := grounded.entries
  refine ⟨grounded.context, grounded.suppressed, ⟨found ++ (l.visit r node).trace.entries, ?_, ?_⟩, ?_⟩
  · simp [afterAll, whole]
  · intro e among
    rcases List.mem_append.mp among with before | fresh
    · exact earlier (rest e before)
    · exact now (List.mem_append_left _ fresh)
  · intro p among e recorded
    rcases List.mem_append.mp among with before | fresh
    · exact earlier (grounded.pending p before e recorded)
    · have started : p ∈ (l.visit r node).trace.pending := by simpa using fresh
      exact now (List.mem_append_right _ (List.mem_flatMap.mpr ⟨p, started, recorded⟩))

/-- Recording what checks of a ledger have found keeps it grounded. -/
theorem Grounded.answer (grounded : l.Grounded q suppressions) (positions : List Nat) :
    { l with entries := l.entries ++ (l.startedAt positions).flatMap Pending.recorded }.Grounded q
      suppressions := by
  obtain ⟨found, whole, rest⟩ := grounded.entries
  refine ⟨grounded.context, grounded.suppressed,
    ⟨found ++ (l.startedAt positions).flatMap Pending.recorded, ?_, ?_⟩, grounded.pending⟩
  · simp [whole]
  · intro e among
    rcases List.mem_append.mp among with before | fresh
    · exact rest e before
    · obtain ⟨p, started, recorded⟩ := List.mem_flatMap.mp fresh
      obtain ⟨i, _, here⟩ := List.mem_filterMap.mp started
      exact grounded.pending p (List.mem_of_getElem? here) e recorded

/-- What happens during a wait keeps its ledger grounded. -/
theorem Grounded.wait {w next : Wait} (grounded : w.ledger.Grounded q suppressions)
    (step : Wait.Step w next) : next.ledger.Grounded q suppressions := by
  cases step with
  | answer _ _ => exact grounded.answer _
  | take _ _ => exact ⟨grounded.context, grounded.suppressed, grounded.entries, grounded.pending⟩
  | collect _ _ => exact grounded
  | finish _ _ => exact grounded

end Ledger
end DocLint
