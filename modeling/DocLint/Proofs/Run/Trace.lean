import DocLint.Proofs.Lists
import DocLint.Run.Linting

/-!
# What linting a node leaves

All that is recorded of a node, at once or later, carries the node's path and the rule's name
(`mem_recorded_lintNode`), at a path through that of the node (`prefix_of_mem_lintNode`). Checks that
answer at once leave nothing pending (`lintNode_pending_of_synchronous`). Where only the entries of checks
differ, and part by part, so do those of the node (`lintNode_onEntries`). Suppressed locations act on the
trace as a filter, which neither starts a check nor keeps one from failing (`lintNode_suppressed`).
-/
namespace DocLint

/-- A document whose ranges are known, so that every diagnostic of it can be placed. -/
def Document.HasRanges (d : Document) : Prop :=
  ∃ m, d.ranges = .ok m

/-- A document that was read has ranges: its text was read as nodes before it was given a value. -/
theorem Document.hasRanges_of_parse {text : String} {source : Option String} {d : Document}
    (parsed : Document.parse text source = .ok d) : d.HasRanges := by
  rw [Document.parse] at parsed
  cases loaded : Yaml.load text with
  | error e => cases e <;> simp [loaded] at parsed
  | ok data =>
    simp only [loaded, Except.ok.injEq] at parsed
    subst parsed
    cases read : Yaml.NodeGraph.ofText? text with
    | error e => simp [Yaml.load, read, bind, Except.bind] at loaded
    | ok nodes =>
      by_cases blank : text.isEmpty
      · exact ⟨⟨[]⟩, by simp [SourceMap.ofOptional?, blank]⟩
      · refine ⟨SourceMap.ofNodes nodes, ?_⟩
        simp [SourceMap.ofOptional?, blank, SourceMap.ofText?, read, bind, Except.bind, pure,
          Except.pure]

/-- A check of which other entries are recorded in the place of its own. -/
def Pending.onEntries (change : List Entry → List Entry) (p : Pending) : Pending :=
  { p with settled := p.settled.map change }

theorem Pending.recorded_onEntries {change : List Entry → List Entry} (nothing : change [] = [])
    (p : Pending) : (p.onEntries change).recorded = change p.recorded := by
  cases answered : p.settled <;> simp [onEntries, recorded, answered, Except.map, nothing]

/-- A check of which only some entries are recorded. -/
def Pending.keep (kept : Entry → Bool) (p : Pending) : Pending :=
  { p with settled := p.settled.map (List.filter kept) }

namespace Trace

/-- A trace in which other entries are recorded in the place of its own. -/
def onEntries (change : List Entry → List Entry) (t : Trace) : Trace :=
  ⟨change t.entries, t.pending.map (Pending.onEntries change), t.failure?⟩

/-- A trace of which only some entries are recorded. -/
def keep (kept : Entry → Bool) (t : Trace) : Trace :=
  ⟨t.entries.filter kept, t.pending.map (Pending.keep kept), t.failure?⟩

/-- All that is recorded in the end, at once and by the checks that answer later. -/
def recorded (t : Trace) : List Entry :=
  t.entries ++ t.pending.flatMap Pending.recorded

section
variable {change : List Entry → List Entry} (parts : ∀ a b, change (a ++ b) = change a ++ change b)
include parts

/-- What is done to entries part by part leaves no entries as they are. -/
theorem change_nil : change [] = [] := by
  have twice := parts [] []
  simpa using twice

/-- What is done to the entries of traces in turn is done to those of each. -/
theorem onEntries_inTurn (traces : List Trace) :
    (inTurn traces).onEntries change = inTurn (traces.map (onEntries change)) := by
  induction traces with
  | nil => simp [inTurn, empty, onEntries, change_nil parts]
  | cons first rest ih =>
    rw [List.map_cons, inTurn, inTurn, List.foldr_cons, List.foldr_cons, ← inTurn, ← inTurn, ← ih]
    cases failed : first.failure? with
    | some failure => simp only [andThen, onEntries, failed]
    | none => simp only [andThen, onEntries, failed, parts, List.map_append]

/-- Of a trace with other entries, these are recorded. -/
theorem recorded_onEntries (t : Trace) : (t.onEntries change).recorded = change t.recorded := by
  have later : ∀ pending : List Pending, (pending.map (Pending.onEntries change)).flatMap
      Pending.recorded = change (pending.flatMap Pending.recorded) := by
    intro pending
    induction pending with
    | nil => exact (change_nil parts).symm
    | cons p rest ih =>
      rw [List.map_cons, List.flatMap_cons, List.flatMap_cons, parts, ih,
        Pending.recorded_onEntries (change_nil parts)]
  rw [recorded, recorded, parts, ← later]
  rfl

end

/-- Of a trace of which some entries are kept, these are recorded. -/
theorem recorded_keep (t : Trace) (kept : Entry → Bool) :
    (t.keep kept).recorded = t.recorded.filter kept :=
  @recorded_onEntries (List.filter kept) List.filter_append t

/-- What traces in turn record, one of them records. -/
theorem mem_recorded_inTurn {traces : List Trace} {e : Entry} (found : e ∈ (inTurn traces).recorded) :
    ∃ t ∈ traces, e ∈ t.recorded := by
  induction traces with
  | nil => simp [inTurn, empty, recorded] at found
  | cons first rest ih =>
    rw [inTurn, List.foldr_cons, ← inTurn, andThen] at found
    cases failed : first.failure? with
    | some failure =>
      rw [failed] at found
      exact ⟨first, List.mem_cons_self, found⟩
    | none =>
      have split : e ∈ first.recorded ∨ e ∈ (inTurn rest).recorded := by
        simp only [failed, recorded, List.flatMap_append, List.mem_append] at found ⊢
        rcases found with (here | later) | (here | later)
        · exact Or.inl (Or.inl here)
        · exact Or.inr (Or.inl later)
        · exact Or.inl (Or.inr here)
        · exact Or.inr (Or.inr later)
      rcases split with here | later
      · exact ⟨first, List.mem_cons_self, here⟩
      · obtain ⟨t, member, recorded⟩ := ih later
        exact ⟨t, List.mem_cons_of_mem first member, recorded⟩

/-- Traces without pending checks leave none in turn. -/
theorem inTurn_pending {traces : List Trace} (none : ∀ t ∈ traces, t.pending = []) :
    (inTurn traces).pending = [] := by
  induction traces with
  | nil => rfl
  | cons first rest ih =>
    have here := none first List.mem_cons_self
    rw [inTurn, List.foldr_cons, ← inTurn, andThen]
    cases first.failure? with
    | some failure => exact here
    | none => simp [here, ih fun t member => none t (List.mem_cons_of_mem first member)]

end Trace

/-- A check that always answers at once. -/
def Check.IsSynchronous (check : Check) : Prop :=
  ∀ v options context turns result, check v options context ≠ .later turns result

/-- What a check comes to is an answer, at once or later. -/
def Outcome.ComesTo : Outcome → Answer → Prop
  | .answered answer, expected => answer = expected
  | .later _ (.ok answer), expected => answer = expected
  | _, _ => False

/-- A rule all of whose checks answer at once. -/
def Rule.IsSynchronous (r : Rule) : Prop :=
  ∀ action ∈ r.actions, action.check.IsSynchronous

/-- The targets of an action for a node are at paths through that of the node. -/
theorem Target.prefix_of_ofField {query : PathQuery} {path : Path} {v : Value} {field : Option String}
    {targets : List (Path × Value)} (ok : ofField query path v field = .ok targets) :
    ∀ target ∈ targets, path <+: target.1 := by
  intro target member
  cases field with
  | none =>
    cases ok
    obtain rfl := List.mem_singleton.mp member
    exact List.prefix_rfl
  | some field =>
    rw [ofField] at ok
    split at ok
    · cases ok
      obtain ⟨e, _, rfl⟩ := List.mem_map.mp member
      exact List.prefix_append _ _
    · split at ok
      · cases found : (query field v).all with
        | error failure => simp [found, bind, Except.bind] at ok
        | ok found' =>
          simp only [found, bind, Except.bind, pure, Except.pure] at ok
          split at ok
          · cases ok
            obtain rfl := List.mem_singleton.mp member
            exact List.prefix_rfl
          · cases ok
            obtain ⟨e, _, rfl⟩ := List.mem_map.mp member
            exact List.prefix_append _ _
      · cases followed : follow v (fieldParts field) with
        | error failure => simp [followed, bind, Except.bind] at ok
        | ok below =>
          simp only [followed, bind, Except.bind, pure, Except.pure, Except.ok.injEq] at ok
          subst targets
          obtain rfl := List.mem_singleton.mp member
          exact List.prefix_append _ _

namespace RunContext
variable (c : RunContext) (rule : Rule) (locations : List Location)

/-- What is recorded of findings is of one that is not suppressed, at the range of its path. -/
theorem exists_finding_of_mem_record {nodePath : Path} {target : Path × Value} {answer : Answer}
    {entries : List Entry} (ok : c.record rule locations nodePath target answer = .ok entries) {e : Entry}
    (member : e ∈ entries) :
    ∃ finding ∈ answer.getD [], ∃ range, c.suppresses locations nodePath (target.1 ++ finding.path) = false ∧
      c.inventory.document.rangeAt (target.1 ++ finding.path) = .ok range ∧
      e = ⟨nodePath, { code := rule.name
                       message := rule.messageFor finding (target.1 ++ finding.path) target.2
                       path := target.1 ++ finding.path
                       severity := rule.severity
                       range
                       source := c.inventory.document.source }⟩ := by
  obtain ⟨finding, kept, made⟩ := (mem_mapM_ok ok e).mp member
  obtain ⟨found, unsuppressed⟩ := List.mem_filter.mp kept
  rw [diagnose] at made
  cases placed : c.inventory.document.rangeAt (target.1 ++ finding.path) with
  | error failure => simp [placed, bind, Except.bind, Except.map] at made
  | ok range =>
    simp only [placed, bind, Except.bind, Except.map, pure, Except.pure, Except.ok.injEq] at made
    exact ⟨finding, found, range, by simpa using unsuppressed, placed, made.symm⟩

/-- What is recorded of findings carries the path of the node and the name of the rule, at a path through
that of the target. -/
theorem record_tags {nodePath : Path} {target : Path × Value} {answer : Answer}
    {entries : List Entry} (ok : c.record rule locations nodePath target answer = .ok entries) :
    ∀ e ∈ entries, (e.node = nodePath ∧ e.diagnostic.code = rule.name) ∧
      target.1 <+: e.diagnostic.path := by
  intro e member
  obtain ⟨finding, _, range, _, _, rfl⟩ := c.exists_finding_of_mem_record rule locations ok member
  exact ⟨⟨rfl, rfl⟩, List.prefix_append _ _⟩

/-- What running a check leaves is recorded of the findings of the answer that the check comes to. -/
theorem record_of_mem_lintTarget {nodePath : Path} {action : Action} {target : Path × Value}
    {e : Entry} (found : e ∈ (c.lintTarget rule locations nodePath action target).recorded) :
    ∃ answer entries, (action.check target.2 (action.options.getD (.ofScalar .null))
        ⟨rule.name, target.1, c.inventory⟩).ComesTo answer ∧
      c.record rule locations nodePath target answer = .ok entries ∧ e ∈ entries := by
  rw [lintTarget] at found
  split at found
  case h_1 => simp [Trace.recorded, Trace.failed] at found
  case h_2 answer comes =>
    cases kept : c.record rule locations nodePath target answer with
    | error failure => simp [kept, Trace.recorded, Trace.failed] at found
    | ok entries => exact ⟨answer, entries, by rw [comes]; rfl, kept, by simpa [kept, Trace.recorded] using found⟩
  case h_3 turns result comes =>
    cases result with
    | error cause => simp [Trace.recorded, Pending.recorded] at found
    | ok answer =>
      cases kept : c.record rule locations nodePath target answer with
      | error failure => simp [kept, Trace.recorded, Pending.recorded] at found
      | ok entries =>
        exact ⟨answer, entries, by rw [comes]; rfl, kept, by
          simpa [kept, Trace.recorded, Pending.recorded] using found⟩

/-- What linting a node leaves is recorded of some target of an action for the node. -/
theorem target_of_mem_lintNode {node : GivenNode} {e : Entry}
    (found : e ∈ (c.lintNode rule locations node).recorded) :
    ∃ action ∈ rule.actions, ∃ targets target,
      Target.ofField c.query node.documentPath node.value action.field = .ok targets ∧
        target ∈ targets ∧
          e ∈ (c.lintTarget rule locations node.documentPath action target).recorded := by
  obtain ⟨t, acted, here⟩ := Trace.mem_recorded_inTurn found
  obtain ⟨action, listed, rfl⟩ := List.mem_map.mp acted
  rw [lintAction] at here
  split at here
  case h_1 => simp [Trace.recorded, Trace.failed] at here
  case h_2 targets ok =>
    obtain ⟨t, aimed, there⟩ := Trace.mem_recorded_inTurn here
    obtain ⟨target, member, rfl⟩ := List.mem_map.mp aimed
    exact ⟨action, listed, targets, target, ok, member, there⟩

/-- What linting a node leaves carries the path of the node and the name of the rule. -/
theorem mem_recorded_lintNode {node : GivenNode} {e : Entry}
    (found : e ∈ (c.lintNode rule locations node).recorded) :
    e.node = node.documentPath ∧ e.diagnostic.code = rule.name := by
  obtain ⟨action, _, targets, target, _, _, here⟩ := c.target_of_mem_lintNode rule locations found
  obtain ⟨answer, entries, _, kept, member⟩ := c.record_of_mem_lintTarget rule locations here
  exact (c.record_tags rule locations kept e member).1

/-- The diagnostics of a node are at paths through that of the node. -/
theorem prefix_of_mem_lintNode {node : GivenNode} {e : Entry}
    (found : e ∈ (c.lintNode rule locations node).recorded) :
    node.documentPath <+: e.diagnostic.path := by
  obtain ⟨action, _, targets, target, aimed, listed, here⟩ :=
    c.target_of_mem_lintNode rule locations found
  obtain ⟨answer, entries, _, kept, member⟩ := c.record_of_mem_lintTarget rule locations here
  exact (Target.prefix_of_ofField aimed target listed).trans
    (c.record_tags rule locations kept e member).2

/-- Checks that answer at once leave nothing pending. -/
theorem lintNode_pending_of_synchronous {node : GivenNode} (synchronous : rule.IsSynchronous) :
    (c.lintNode rule locations node).pending = [] := by
  refine Trace.inTurn_pending fun t acted => ?_
  obtain ⟨action, member, rfl⟩ := List.mem_map.mp acted
  rw [lintAction]
  split
  · rfl
  · refine Trace.inTurn_pending fun t aimed => ?_
    obtain ⟨target, _, rfl⟩ := List.mem_map.mp aimed
    rw [lintTarget]
    split
    case h_1 => rfl
    case h_2 => split <;> rfl
    case h_3 turns result later => exact absurd later (synchronous action member _ _ _ turns result)

/-- Whether an entry is recorded in spite of some locations. -/
def keeps (c : RunContext) (locations : List Location) (e : Entry) : Bool :=
  !c.suppresses locations e.node e.diagnostic.path

/-- Locations take what they suppress away from what is recorded of findings. -/
theorem record_suppressed (ranged : c.inventory.document.HasRanges) (nodePath : Path)
    (target : Path × Value) (answer : Answer) :
    c.record rule locations nodePath target answer =
      (c.record rule [] nodePath target answer).map (List.filter (c.keeps locations)) := by
  obtain ⟨m, ranges⟩ := ranged
  let entry (finding : Finding) : Entry :=
    ⟨nodePath, { code := rule.name
                 message := rule.messageFor finding (target.1 ++ finding.path) target.2
                 path := target.1 ++ finding.path
                 severity := rule.severity
                 range := m.rangeAt (target.1 ++ finding.path)
                 source := c.inventory.document.source }⟩
  have placed : (fun finding => (c.diagnose rule target finding).map (Entry.mk nodePath)) =
      fun finding => .ok (entry finding) := by
    funext finding
    simp [diagnose, Document.rangeAt, ranges, entry, bind, Except.bind, Except.map, pure,
      Except.pure]
  have all : (answer.getD []).filter (fun finding =>
      !c.suppresses [] nodePath (target.1 ++ finding.path)) = answer.getD [] := by
    simp [suppresses, Location.anyCovers]
  rw [record, record, placed, all, mapM_ok_eq_map, mapM_ok_eq_map]
  refine congrArg Except.ok ?_
  rw [List.filter_map]
  rfl

/-- Two ways to run a check that gives the same answer, and of which one records other entries, leave the
same otherwise. -/
theorem lintTarget_onEntries {c c' : RunContext} {locations locations' : List Location}
    {change : List Entry → List Entry} {nodePath : Path} {action : Action} {target : Path × Value}
    (checked : ∀ options, action.check target.2 options ⟨rule.name, target.1, c'.inventory⟩ =
      action.check target.2 options ⟨rule.name, target.1, c.inventory⟩)
    (recorded : ∀ answer, c'.record rule locations' nodePath target answer =
      (c.record rule locations nodePath target answer).map change)
    (nothing : change [] = []) :
    c'.lintTarget rule locations' nodePath action target =
      (c.lintTarget rule locations nodePath action target).onEntries change := by
  rw [lintTarget, lintTarget, checked]
  split
  case h_1 => simp [Trace.failed, Trace.onEntries, nothing]
  case h_2 answer _ =>
    rw [recorded]
    cases c.record rule locations nodePath target answer <;>
      simp [Except.map, Trace.failed, Trace.onEntries, nothing]
  case h_3 turns result _ =>
    cases result with
    | error cause => simp [Trace.onEntries, Pending.onEntries, Except.map, nothing]
    | ok answer => simp [recorded, Trace.onEntries, Pending.onEntries, nothing]

/-- Two ways to lint a node with checks that give the same answers, and of which one records other entries,
leave the same otherwise. -/
theorem lintNode_onEntries {c c' : RunContext} {locations locations' : List Location}
    {change : List Entry → List Entry} (node : GivenNode) (queried : c'.query = c.query)
    (checked : ∀ action ∈ rule.actions, ∀ v options path,
      action.check v options ⟨rule.name, path, c'.inventory⟩ =
        action.check v options ⟨rule.name, path, c.inventory⟩)
    (recorded : ∀ nodePath target answer, c'.record rule locations' nodePath target answer =
      (c.record rule locations nodePath target answer).map change)
    (parts : ∀ a b, change (a ++ b) = change a ++ change b) :
    c'.lintNode rule locations' node = (c.lintNode rule locations node).onEntries change := by
  rw [lintNode, lintNode, Trace.onEntries_inTurn parts, List.map_map]
  congr 1
  refine List.map_congr_left fun action member => ?_
  rw [Function.comp_apply, lintAction, lintAction, queried]
  split
  · simp [Trace.failed, Trace.onEntries, Trace.change_nil parts]
  · rw [Trace.onEntries_inTurn parts, List.map_map]
    congr 1
    refine List.map_congr_left fun target _ => ?_
    exact lintTarget_onEntries rule (fun options => checked action member _ options _)
      (recorded _ target) (Trace.change_nil parts)

/-- Locations take what they suppress away from what linting a node leaves. The same checks are run, the
same of them answer later and the same of them fail. -/
theorem lintNode_suppressed (ranged : c.inventory.document.HasRanges) (node : GivenNode) :
    c.lintNode rule locations node = (c.lintNode rule [] node).keep (c.keeps locations) :=
  lintNode_onEntries rule node rfl (fun _ _ _ _ _ => rfl)
    (fun nodePath target answer => c.record_suppressed rule locations ranged nodePath target answer)
    List.filter_append

end RunContext
end DocLint
