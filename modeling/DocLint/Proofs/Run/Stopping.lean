import DocLint.Proofs.Run.Trace
import DocLint.Proofs.Run.Visits
import DocLint.Proofs.Tree

/-!
# Where linting a node stops

Linting a node runs the checks of a rule's actions on their targets one after the other (`RunContext.probes`). A
check that answers at once leaves a report of each problem that is not suppressed, and one that answers later is
left pending (`RunContext.exists_reports_of_lintTarget`). The first that fails ends it. So what is left of a node
is what the checks before that one leave, in their order, and nothing besides (`Ledger.lint_stops`).
-/
namespace DocLint

/-! ### Traces in parts -/

namespace Trace

theorem andThen_of_failure {a : Trace} {failure : Failure} (failed : a.failure? = some failure) (b : Trace) :
    a.andThen b = a := by
  simp only [andThen, failed]

theorem andThen_assoc (a b c : Trace) : (a.andThen b).andThen c = a.andThen (b.andThen c) := by
  cases first : a.failure? with
  | some failure => simp only [andThen_of_failure first]
  | none =>
    cases second : b.failure? <;> simp only [andThen, first, second, List.append_assoc]

theorem andThen_failed (entries : List Entry) (pending : List Pending) (failure : Failure) :
    andThen ⟨entries, pending, none⟩ (.failed failure) = ⟨entries, pending, some failure⟩ := by
  simp only [andThen, failed, List.append_nil]

/-- Behind a failure no trace is taken. -/
theorem inTurn_failed (failure : Failure) (rest : List Trace) :
    inTurn (.failed failure :: rest) = .failed failure := rfl

/-- Traces are taken in turn in parts. -/
theorem inTurn_append (a b : List Trace) : inTurn (a ++ b) = (inTurn a).andThen (inTurn b) := by
  induction a with
  | nil => rfl
  | cons t a ih =>
    rw [List.cons_append, inTurn, List.foldr_cons, ← inTurn, ih, ← andThen_assoc]
    rfl

end Trace

/-- A check that is run on a node: that of an action on one of its targets. -/
structure Probe where
  action : Action
  target : Path × Value

namespace RunContext
variable (c : RunContext) (rule : Rule) (locations : List Location) (node : GivenNode)

/-- The checks that actions run on a node, in order. -/
def probesOf (actions : List Action) : Except Failure (List Probe) := do
  return (← actions.mapM fun action => do
    return (← Target.ofField c.query node.documentPath node.value action.field).map (Probe.mk action)).flatten

/-- The checks that a rule runs on a node, in order. -/
def probes : Except Failure (List Probe) :=
  c.probesOf node rule.actions

/-- What a check comes to. -/
def outcome (p : Probe) : Outcome :=
  p.action.check p.target.2 (p.action.options.getD (.ofScalar .null)) ⟨rule.name, p.target.1, c.inventory⟩

/-- The problems that a check reports at once: those that it finds and that are not suppressed. -/
def findings (p : Probe) : List Finding :=
  match c.outcome rule p with
  | .answered answer => (answer.getD []).filter fun f =>
      !c.suppresses locations node.documentPath (p.target.1 ++ f.path)
  | _ => []

/-- What is left pending of a check that answers later. -/
def pending? (p : Probe) : Option Pending :=
  match c.outcome rule p with
  | .later turns (.ok answer) =>
    some ⟨turns, c.record rule locations node.documentPath p.target answer⟩
  | .later turns (.error cause) =>
    some ⟨turns, .error (.check rule.name p.action.function p.target.1 cause)⟩
  | _ => none

/-- An entry is the report of a problem that a check of a node has found. -/
structure Reports (p : Probe) (f : Finding) (e : Entry) : Prop where
  node : e.node = node.documentPath
  code : e.diagnostic.code = rule.name
  message : e.diagnostic.message = rule.messageFor f e.diagnostic.path p.target.2
  path : e.diagnostic.path = p.target.1 ++ f.path
  severity : e.diagnostic.severity = rule.severity
  range : c.inventory.document.rangeAt e.diagnostic.path = .ok e.diagnostic.range
  source : e.diagnostic.source = c.inventory.document.source

/-- Entries are the reports of what checks of a node have found, one for each problem and in order. -/
def ReportsAll (done : List Probe) (entries : List Entry) : Prop :=
  List.Forall₂ (fun (found : Probe × Finding) e => c.Reports rule node found.1 found.2 e)
    (done.flatMap fun p => (c.findings rule locations node p).map (p, ·)) entries

variable {c rule locations node} {p : Probe}

/-- The problems that a check reports can be placed in the document. -/
def Placed (c : RunContext) (rule : Rule) (locations : List Location) (node : GivenNode) (p : Probe) : Prop :=
  ∀ f ∈ c.findings rule locations node p,
    ∃ range, c.inventory.document.rangeAt (p.target.1 ++ f.path) = .ok range

/-- A check that fails leaves nothing but its failure. -/
theorem lintTarget_of_failed {cause : Failure} (failed : c.outcome rule p = .failed cause) :
    c.lintTarget rule locations node.documentPath p.action p.target =
      .failed (.check rule.name p.action.function p.target.1 cause) := by
  unfold outcome at failed
  simp only [lintTarget, failed]

/-- Problems that can be placed are recorded by their reports. -/
theorem exists_reports_of_record {answer : Answer} (answered : c.outcome rule p = .answered answer)
    (placed : c.Placed rule locations node p) :
    ∃ entries, c.record rule locations node.documentPath p.target answer = .ok entries ∧
      List.Forall₂ (c.Reports rule node p) (c.findings rule locations node p) entries := by
  have found : c.findings rule locations node p = (answer.getD []).filter fun f =>
      !c.suppresses locations node.documentPath (p.target.1 ++ f.path) := by
    simp only [findings, answered]
  rw [record, ← found]
  refine exists_mapM_forall₂ fun f member => ?_
  obtain ⟨range, here⟩ := placed f member
  refine ⟨⟨node.documentPath, { code := rule.name
                                message := rule.messageFor f (p.target.1 ++ f.path) p.target.2
                                path := p.target.1 ++ f.path
                                severity := rule.severity
                                range
                                source := c.inventory.document.source }⟩, ?_, ?_⟩
  · simp only [diagnose, here]
    rfl
  · exact ⟨rfl, rfl, rfl, rfl, rfl, here, rfl⟩

/-- A check that does not fail leaves the reports of what it finds at once, or is left pending. -/
theorem exists_reports_of_lintTarget (calm : ∀ cause, c.outcome rule p ≠ .failed cause)
    (placed : c.Placed rule locations node p) :
    ∃ entries, c.lintTarget rule locations node.documentPath p.action p.target =
        ⟨entries, (c.pending? rule locations node p).toList, none⟩ ∧
      List.Forall₂ (c.Reports rule node p) (c.findings rule locations node p) entries := by
  cases comes : c.outcome rule p with
  | failed cause => exact absurd comes (calm cause)
  | answered answer =>
    obtain ⟨entries, recorded, reports⟩ := exists_reports_of_record comes placed
    refine ⟨entries, ?_, reports⟩
    have nothing : c.pending? rule locations node p = none := by simp only [pending?, comes]
    unfold outcome at comes
    simp only [lintTarget, comes, recorded, nothing, Option.toList_none]
  | later turns result =>
    have nothing : c.findings rule locations node p = [] := by simp only [findings, comes]
    refine ⟨[], ?_, nothing ▸ .nil⟩
    cases result with
    | ok answer =>
      have left : c.pending? rule locations node p =
          some ⟨turns, c.record rule locations node.documentPath p.target answer⟩ := by
        simp only [pending?, comes]
      unfold outcome at comes
      simp only [lintTarget, comes, left, Option.toList_some]
    | error cause =>
      have left : c.pending? rule locations node p =
          some ⟨turns, .error (.check rule.name p.action.function p.target.1 cause)⟩ := by
        simp only [pending?, comes]
      unfold outcome at comes
      simp only [lintTarget, comes, left, Option.toList_some]

/-- The reports of a check and those of the others are the reports of all. -/
theorem ReportsAll.cons {done : List Probe} {here there : List Entry}
    (reports : List.Forall₂ (c.Reports rule node p) (c.findings rule locations node p) here)
    (others : c.ReportsAll rule locations node done there) :
    c.ReportsAll rule locations node (p :: done) (here ++ there) := by
  have first : List.Forall₂ (fun (found : Probe × Finding) e => c.Reports rule node found.1 found.2 e)
      ((c.findings rule locations node p).map (p, ·)) here := List.forall₂_map_left_iff.mpr reports
  rw [ReportsAll, List.flatMap_cons]
  exact List.rel_append first others

/-- Checks that do not fail leave together what each of them leaves. -/
theorem exists_reports_of_inTurn {done : List Probe}
    (calm : ∀ p ∈ done, ∀ cause, c.outcome rule p ≠ .failed cause)
    (placed : ∀ p ∈ done, c.Placed rule locations node p) :
    ∃ entries, Trace.inTurn (done.map fun p =>
          c.lintTarget rule locations node.documentPath p.action p.target) =
        ⟨entries, done.filterMap (c.pending? rule locations node), none⟩ ∧
      c.ReportsAll rule locations node done entries := by
  induction done with
  | nil => exact ⟨[], rfl, .nil⟩
  | cons p done ih =>
    rw [List.forall_mem_cons] at calm placed
    obtain ⟨here, left, reports⟩ := exists_reports_of_lintTarget calm.1 placed.1
    obtain ⟨there, left', reports'⟩ := ih calm.2 placed.2
    refine ⟨here ++ there, ?_, .cons reports reports'⟩
    rw [List.map_cons, Trace.inTurn, List.foldr_cons, ← Trace.inTurn, left, left']
    simp only [Trace.andThen, List.filterMap_cons]
    cases c.pending? rule locations node p <;> rfl

/-- Linting a node is running all its checks in turn. -/
theorem lintNode_eq_inTurn {probes : List Probe} (resolved : c.probes rule node = .ok probes) :
    c.lintNode rule locations node = .inTurn (probes.map fun p =>
      c.lintTarget rule locations node.documentPath p.action p.target) := by
  have inParts : ∀ (actions : List Action) (probes : List Probe), c.probesOf node actions = .ok probes →
      Trace.inTurn (actions.map (c.lintAction rule locations node)) = .inTurn (probes.map fun p =>
        c.lintTarget rule locations node.documentPath p.action p.target) := by
    intro actions
    induction actions with
    | nil =>
      intro probes resolved
      cases resolved
      rfl
    | cons action actions ih =>
      intro probes resolved
      obtain ⟨lists, gathered, rfl⟩ := exists_of_bind_pure resolved
      rw [List.mapM_cons] at gathered
      cases aimed : Target.ofField c.query node.documentPath node.value action.field with
      | error failure => simp [aimed, bind, Except.bind] at gathered
      | ok targets =>
        rw [aimed] at gathered
        obtain ⟨others, later, rfl⟩ := exists_of_bind_pure gathered
        have rest := ih others.flatten (by rw [probesOf, later]; rfl)
        have here : c.lintAction rule locations node action =
            .inTurn (targets.map (c.lintTarget rule locations node.documentPath action)) := by
          simp only [lintAction, aimed]
        rw [List.map_cons, Trace.inTurn, List.foldr_cons, ← Trace.inTurn, rest, here, List.flatten_cons,
          List.map_append, Trace.inTurn_append, List.map_map]
        rfl
  exact inParts rule.actions probes resolved

end RunContext

namespace Ledger
variable {l : Ledger} {rule : Rule} {locations : List Location} {node : GivenNode}

/-- A ledger after some checks of a node: the reports of what they found at once and the checks left pending are
new, in order, and so is the visit, and nothing else has changed. -/
structure Ran (l : Ledger) (rule : Rule) (locations : List Location) (node : GivenNode) (done : List Probe)
    (after : Ledger) : Prop where
  entries : ∃ new, after.entries = l.entries ++ new ∧ l.context.ReportsAll rule locations node done new
  pending : after.pending = l.pending ++ done.filterMap (l.context.pending? rule locations node)
  visits : after.visits = l.visits ++ [l.context.visit rule locations node]
  context : after.context = l.context
  suppressions : after.suppressions = l.suppressions
  settled : after.settled = l.settled

/-- A ledger on which a node was linted has what the trace of the node has. -/
theorem ran_of_lintNode {done : List Probe} {new : List Entry} {failure? : Option Failure}
    (linted : l.context.lintNode rule locations node =
      ⟨new, done.filterMap (l.context.pending? rule locations node), failure?⟩)
    (reports : l.context.ReportsAll rule locations node done new) :
    l.Ran rule locations node done (l.lint rule locations node).1 ∧
      (l.lint rule locations node).2 = failure? := by
  refine ⟨⟨⟨new, ?_, reports⟩, ?_, rfl, rfl, rfl, rfl⟩, ?_⟩ <;> simp only [lint, after, linted]

/-- Linting a node runs the checks of the rule up to the first that fails. If that is the check at a position, the
ledger has what the checks before it leave, and the failure names the rule, the function and the place of the
target. If none fails, it has what all of them leave. -/
theorem lint_stops (l : Ledger) (rule : Rule) (locations : List Location) (node : GivenNode)
    {probes : List Probe} (resolved : l.context.probes rule node = .ok probes) (k : Nat)
    (calm : ∀ p ∈ probes.take k, ∀ cause, l.context.outcome rule p ≠ .failed cause)
    (placed : ∀ p ∈ probes.take k, l.context.Placed rule locations node p) :
    (∀ p cause, probes[k]? = some p → l.context.outcome rule p = .failed cause →
      l.Ran rule locations node (probes.take k) (l.lint rule locations node).1 ∧
      (l.lint rule locations node).2 = some (.check rule.name p.action.function p.target.1 cause) ∧
      ∀ describe, (Failure.check rule.name p.action.function p.target.1 cause).messageWith describe =
        s!"Rule '{rule.name}': function '{p.action.function}' failed at {p.target.1.pointer}: " ++
          cause.messageWith describe) ∧
    (probes.length ≤ k → l.Ran rule locations node probes (l.lint rule locations node).1 ∧
      (l.lint rule locations node).2 = none) := by
  obtain ⟨new, left, reports⟩ := RunContext.exists_reports_of_inTurn calm placed
  have inTurn : l.context.lintNode rule locations node = _ := RunContext.lintNode_eq_inTurn resolved
  constructor
  · intro p cause here failed
    have split : probes = probes.take k ++ p :: probes.drop (k + 1) := by
      obtain ⟨bound, rfl⟩ := List.getElem?_eq_some_iff.mp here
      rw [← List.drop_eq_getElem_cons bound, List.take_append_drop]
    rw [split, List.map_append, Trace.inTurn_append, left, List.map_cons,
      RunContext.lintTarget_of_failed failed, Trace.inTurn_failed, Trace.andThen_failed] at inTurn
    obtain ⟨ran, ends⟩ := ran_of_lintNode inTurn reports
    exact ⟨ran, ends, fun _ => rfl⟩
  · intro short
    rw [List.take_of_length_le short] at left reports
    exact ran_of_lintNode (inTurn.trans left) reports

/-- A rule that finds fault with every key, then starts a check that answers later, and then fails on a key. -/
def interrupted : Rule :=
  { Rule.standard "interrupted" [] with
    actions := [⟨"keys", fun _ _ _ => .problem "seen", some "@key", none⟩,
      ⟨"later", fun _ _ _ => .later 1 (.ok none), none, none⟩,
      ⟨"failing", fun v _ _ => if v.string? == some "b" then .failed (.aborted "no") else .problem "seen",
        some "@key", none⟩,
      ⟨"unreached", fun _ _ _ => .problem "seen", none, none⟩] }

/-- A ledger that has recorded something. -/
def begun : Ledger :=
  { start ⟨.ofDocument .sharing none none, fun _ _ => .complete [], "/"⟩ [] with entries := [default] }

/-- The root of shared parts, with two keys. -/
def sharedRoot : GivenNode :=
  ⟨[], Value.sharedParts⟩

theorem interrupted_stops :
    ∃ probes, begun.context.probes interrupted sharedRoot = .ok probes ∧
      begun.Ran interrupted [⟨none, ["b"]⟩] sharedRoot (probes.take 4)
        (begun.lint interrupted [⟨none, ["b"]⟩] sharedRoot).1 ∧
      (begun.lint interrupted [⟨none, ["b"]⟩] sharedRoot).2 =
        some (.check "interrupted" "failing" [.str "b"] (.aborted "no")) ∧
      ((begun.lint interrupted [⟨none, ["b"]⟩] sharedRoot).1.entries.map fun e =>
        (e.diagnostic.code, e.diagnostic.path)) =
          [("", []), ("interrupted", [.str "a"]), ("interrupted", [.str "a"])] ∧
      (begun.lint interrupted [⟨none, ["b"]⟩] sharedRoot).1.pending.length = 1 := by
  have resolved : begun.context.probes interrupted sharedRoot = .ok _ := rfl
  obtain ⟨ran, ends, _⟩ := (lint_stops begun interrupted [⟨none, ["b"]⟩] sharedRoot resolved 4
    (by rintro p (_ | ⟨_, _ | ⟨_, _ | ⟨_, _ | ⟨_, ⟨⟩⟩⟩⟩⟩) cause ⟨⟩) (fun _ _ _ _ => ⟨_, rfl⟩)).1
      _ (.aborted "no") rfl rfl
  exact ⟨_, resolved, ran, ends, by decide, by decide⟩

end Ledger
end DocLint
