import DocLint.Proofs.Run.Suppression

/-!
# Streams

A stream is a document without a place. What is declared for it is not applied: a run with declarations
records one warning and then what it records without any. Where a document comes from is written into each
diagnostic and is otherwise not looked at, as long as no check does (`lintNode_withSource`); so a stream has
the diagnostics that the same document has in a file (`runBy_streams`).
-/
namespace DocLint

/-- The same document in another place. -/
def Document.withSource (d : Document) (source : Option String) : Document :=
  { d with source }

def Inventory.withSource (i : Inventory) (source : Option String) : Inventory :=
  { i with document := i.document.withSource source }

def RunContext.withSource (c : RunContext) (source : Option String) : RunContext :=
  { c with inventory := c.inventory.withSource source }

def RunRequest.withSource (q : RunRequest) (source : Option String) : RunRequest :=
  { q with context := q.context.withSource source }

/-- A diagnostic with another source and the same otherwise. -/
def Diagnostic.withSource (source : Option String) (d : Diagnostic) : Diagnostic :=
  { d with source }

def Entry.withSource (source : Option String) (e : Entry) : Entry :=
  { e with diagnostic := e.diagnostic.withSource source }

/-- A trace whose diagnostics have another source. -/
def Trace.withSource (source : Option String) (t : Trace) : Trace :=
  t.onEntries (List.map (Entry.withSource source))

def Visit.withSource (source : Option String) (v : Visit) : Visit :=
  { v with trace := v.trace.withSource source }

/-- A check that does not look at where the document comes from. -/
def Check.IgnoresSource (check : Check) : Prop :=
  ∀ v options (c : CheckContext) source,
    check v options { c with inventory := c.inventory.withSource source } = check v options c

/-- A rule none of whose checks look at where the document comes from. -/
def Rule.IgnoresSource (r : Rule) : Prop :=
  ∀ action ∈ r.actions, action.check.IgnoresSource

namespace RunContext
variable (c : RunContext) (rule : Rule) (source : Option String)

/-- The place of a document is written into what is recorded of findings and has no other part in it. -/
theorem record_withSource (nodePath : Path) (target : Path × Value) (answer : Answer) :
    (c.withSource source).record rule [] nodePath target answer =
      (c.record rule [] nodePath target answer).map (List.map (Entry.withSource source)) := by
  have diagnosed : ∀ finding : Finding,
      ((c.withSource source).diagnose rule target finding).map (Entry.mk nodePath) =
        ((c.diagnose rule target finding).map (Entry.mk nodePath)).map (Entry.withSource source) := by
    intro finding
    have ranges : (c.withSource source).inventory.document.rangeAt (target.1 ++ finding.path) =
        c.inventory.document.rangeAt (target.1 ++ finding.path) := rfl
    rw [diagnose, diagnose, ranges]
    cases c.inventory.document.rangeAt (target.1 ++ finding.path) <;> rfl
  have kept : ∀ finding : Finding, (c.withSource source).suppresses [] nodePath (target.1 ++ finding.path) =
      c.suppresses [] nodePath (target.1 ++ finding.path) := fun _ => rfl
  simp only [record, kept, diagnosed]
  exact mapM_map_eq _ _ _

/-- A rule that ignores the place of a document leaves the same wherever the document is, apart from the
place in its diagnostics. -/
theorem lintNode_withSource {rule : Rule} (blind : rule.IgnoresSource) (node : GivenNode) :
    (c.withSource source).lintNode rule [] node = (c.lintNode rule [] node).withSource source :=
  lintNode_onEntries rule node rfl
    (fun action member v options path => blind action member v options ⟨rule.name, path, c.inventory⟩ source)
    (c.record_withSource rule source) fun _ _ => List.map_append

end RunContext

namespace RunRequest
variable {q : RunRequest}

/-- In another place a document has the same nodes linted, with the same checks and failures. -/
theorem plan_withSource (blind : ∀ r ∈ q.rules, r.IgnoresSource) (source : Option String) :
    (q.withSource source).plan [] = (q.plan []).map (Visit.withSource source) := by
  have visits : ∀ r ∈ q.rules, ∀ node, ((q.withSource source).opened []).visit r node =
      (((q.opened []).visit r node)).withSource source := by
    intro r member node
    exact congrArg (Visit.mk r node) (q.context.lintNode_withSource source (blind r member) node)
  have queried : ∀ r ∈ q.rules, ((q.withSource source).opened []).queried r =
      (q.opened []).queried r := by
    intro r member
    have fails : (q.withSource source).context.failsOn r [] = q.context.failsOn r [] := by
      funext node
      change ((q.context.withSource source).lintNode r [] node).failure?.isSome = _
      rw [q.context.lintNode_withSource source (blind r member) node]
      rfl
    exact congrArg (fun f => linted f [] _) fails
  rw [plan, plan, List.map_append, List.map_map, List.map_flatMap]
  refine congrArg₂ (· ++ ·) ?_ ?_
  · exact List.map_congr_left fun t told => visits t.1 (rule_of_walked told).1 t.2
  · refine List.flatMap_congr fun r plain => ?_
    have member := (rule_of_plain plain).1
    rw [List.map_map, queried r member]
    exact List.map_congr_left fun node _ => visits r member node

/-- A stream has no suppressions, whatever is declared. -/
theorem suppresses_of_stream (stream : q.context.inventory.document.isStream = true) :
    q.Suppresses [] := by
  simp [Suppresses, stream]

/-- A run of a stream records the warning of its declarations, and then what it records without them. -/
theorem left_diagnostics_of_stream (schedule : Schedule)
    (stream : q.context.inventory.document.isStream = true) (declared : q.declarations ≠ []) :
    (q.left schedule []).diagnostics = streamWarning q.context.inventory.document ::
      (({ q with declarations := [] } : RunRequest).left schedule []).diagnostics := by
  have warned : q.warnings = [⟨[], streamWarning q.context.inventory.document⟩] := by
    simp [warnings, stream, declared]
  have silent : ({ q with declarations := [] } : RunRequest).warnings = [] := by
    simp [warnings]
  rw [Ledger.diagnostics, Ledger.diagnostics, left_entries, left_entries, warned, silent]
  rfl

/-- What a run records does not depend on when checks answer, up to its order. -/
theorem left_diagnostics_perm (schedule schedule' : Schedule) (suppressions : Suppressions) :
    (q.left schedule suppressions).diagnostics.Perm (q.left schedule' suppressions).diagnostics :=
  ((left_entries_perm q schedule suppressions).trans
    (left_entries_perm q schedule' suppressions).symm).map _

/-- Without declarations a document has the same diagnostics in another place, but for the place. -/
theorem left_diagnostics_withSource (schedule schedule' : Schedule)
    (blind : ∀ r ∈ q.rules, r.IgnoresSource) (free : q.declarations = []) (source : Option String) :
    ((q.withSource source).left schedule []).diagnostics.Perm
      ((q.left schedule' []).diagnostics.map (Diagnostic.withSource source)) ∧
    ((∀ r ∈ q.rules, r.IsSynchronous) → ((q.withSource source).left schedule []).diagnostics =
      (q.left schedule' []).diagnostics.map (Diagnostic.withSource source)) := by
  have silent : q.warnings = [] := by simp [warnings, free]
  have silent' : (q.withSource source).warnings = [] := by
    have free' : (q.withSource source).declarations = [] := free
    simp [warnings, free']
  have plans := plan_withSource blind source
  have renamed : ∀ entries : List Entry, (entries.map (Entry.withSource source)).map Entry.diagnostic =
      (entries.map Entry.diagnostic).map (Diagnostic.withSource source) := by
    simp [Entry.withSource]
  constructor
  · have own := left_entries_perm q schedule' []
    have other := left_entries_perm (q.withSource source) schedule []
    rw [silent, List.nil_append] at own
    rw [silent', List.nil_append, plans, List.flatMap_map] at other
    have same : ((q.plan []).flatMap fun v => (v.withSource source).trace.recorded) =
        ((q.plan []).flatMap fun v => v.trace.recorded).map (Entry.withSource source) := by
      rw [List.map_flatMap]
      exact List.flatMap_congr fun v _ => v.trace.recorded_onEntries fun _ _ => List.map_append
    rw [same] at other
    have all := (other.trans (own.symm.map _)).map Entry.diagnostic
    rwa [renamed] at all
  · intro synchronous
    have own := left_entries_of_synchronous q schedule' [] fun r member _ => synchronous r member
    have other := left_entries_of_synchronous (q.withSource source) schedule [] fun r member _ => synchronous r member
    rw [silent, List.nil_append] at own
    rw [silent', List.nil_append, plans, List.flatMap_map] at other
    have same : ((q.plan []).flatMap fun v => (v.withSource source).trace.entries) =
        ((q.plan []).flatMap fun v => v.trace.entries).map (Entry.withSource source) := by
      rw [List.map_flatMap]
      rfl
    rw [Ledger.diagnostics, Ledger.diagnostics, other, own, same, renamed]

/-- A run of a stream for which anything is declared, legible or not, records one warning and then what it
records without declarations: the same in the same order when the checks answer in the same order. And
without declarations the document has the same diagnostics in a file, apart from the place, when no check
looks at the place: as many of each, and in the same order when all checks answer at once. -/
theorem runBy_streams (b b' b'' : Switchboard) (schedule schedule' schedule'' : Schedule)
    (q : RunRequest) (stream : q.context.inventory.document.isStream = true)
    (declared : q.declarations ≠ []) (blind : ∀ r ∈ q.rules, r.IgnoresSource) (place : String)
    (file : place ≠ Document.stdin) :
    ∃ found plain placed,
      (b.runBy schedule q).2.result =
        .ok (streamWarning q.context.inventory.document :: found) ∧
      (b'.runBy schedule' { q with declarations := [] }).2.result = .ok plain ∧
      (b''.runBy schedule'' (({ q with declarations := [] } : RunRequest).withSource
        (some place))).2.result = .ok placed ∧
      (found.Perm plain ∧ placed.Perm (plain.map (Diagnostic.withSource (some place)))) ∧
      (schedule = schedule' → found = plain) ∧
      ((∀ r ∈ q.rules, r.IsSynchronous) →
        found = plain ∧ placed = plain.map (Diagnostic.withSource (some place))) := by
  let plainly : RunRequest := { q with declarations := [] }
  have free : plainly.Suppresses [] := suppresses_of_stream stream
  have inFile : (plainly.withSource (some place)).Suppresses [] := by
    have kept : (plainly.withSource (some place)).context.inventory.document.isStream = false := by
      simpa [withSource, RunContext.withSource, Inventory.withSource, Document.withSource,
        Document.isStream] using file
    simp only [Suppresses, kept]
    rfl
  have warned := runBy_result b schedule (suppresses_of_stream stream)
  rw [left_diagnostics_of_stream schedule stream declared] at warned
  obtain ⟨same, sameOrder⟩ := left_diagnostics_withSource (q := plainly) schedule'' schedule' blind rfl
    (some place)
  refine ⟨_, _, _, warned, runBy_result b' schedule' free, runBy_result b'' schedule'' inFile,
    ⟨left_diagnostics_perm _ _ _, same⟩, ?_, fun synchronous => ⟨?_, sameOrder synchronous⟩⟩
  · rintro rfl
    rfl
  · have one := left_entries_of_synchronous plainly schedule [] fun r member _ => synchronous r member
    have other := left_entries_of_synchronous plainly schedule' [] fun r member _ => synchronous r member
    rw [Ledger.diagnostics, Ledger.diagnostics, one, other]

/-- A run of what comes through the standard input, with declarations for a rule that does not exist and
with one that is not legible. -/
def streamed : RunRequest where
  context :=
    { inventory := .ofDocument (Document.sharing.withSource (some Document.stdin)) none none
      query := fun _ _ => .failed (.aborted "no query")
      workingDir := "/" }
  rules := [twiceOver "twice"]
  declarations := [("ghost", []), ("twice", ["#/a", "nowhere"])]
  baseDir := none

theorem streamed_streams :
    streamed.context.inventory.document.isStream = true ∧ streamed.declarations ≠ [] ∧
    (∀ r ∈ streamed.rules, r.IgnoresSource) ∧ "api.yaml" ≠ Document.stdin ∧
    ∃ found placed : List Diagnostic,
      (Switchboard.empty.runBy ⟨id, List.Perm.refl⟩ streamed).2.result =
        .ok (streamWarning streamed.context.inventory.document :: found) ∧
      (Switchboard.empty.runBy ⟨id, List.Perm.refl⟩ { streamed with declarations := [] }).2.result =
        .ok found ∧
      placed.Perm (found.map (Diagnostic.withSource (some "api.yaml"))) ∧
      (found.map fun d => (d.code, d.path, d.source)) =
        [("twice", [.str "a"], some "<STDIN>"), ("twice", [.str "b"], some "<STDIN>"),
          ("twice", [.str "a", .str "x"], some "<STDIN>"),
          ("twice", [.str "b", .str "x"], some "<STDIN>")] := by
  have blind : ∀ r ∈ streamed.rules, r.IgnoresSource := by
    intro r only action member v options c source
    cases List.mem_singleton.mp only
    rcases List.mem_cons.mp member with rfl | later
    · rfl
    · cases List.mem_singleton.mp later
      rfl
  have recorded : ((Switchboard.empty.runBy ⟨id, List.Perm.refl⟩
      { streamed with declarations := [] }).2.result.toOption.map fun ds =>
        ds.map fun d => (d.code, d.path, d.source)) =
        some [("twice", [.str "a"], some "<STDIN>"), ("twice", [.str "b"], some "<STDIN>"),
          ("twice", [.str "a", .str "x"], some "<STDIN>"),
          ("twice", [.str "b", .str "x"], some "<STDIN>")] := by
    decide
  obtain ⟨found, plain, placed, warned, plainly, _, ⟨_, same⟩, inOrder, _⟩ := runBy_streams
    Switchboard.empty Switchboard.empty Switchboard.empty ⟨id, List.Perm.refl⟩ ⟨id, List.Perm.refl⟩
    .byTurns streamed rfl (by simp [streamed]) blind "api.yaml" (by decide)
  cases inOrder rfl
  rw [plainly] at recorded
  exact ⟨rfl, by simp [streamed], blind, by decide, found, placed, warned, plainly, same,
    Option.some.inj recorded⟩

end RunRequest
end DocLint
