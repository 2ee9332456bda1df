import DocLint.Proofs.Run.Outcome

/-!
# Each node once

A run lints, for every rule that is admitted, the nodes that the rule asks for, each of them once, and it
lints nothing else (`runBy_lints_once`). For a rule of a shared walk these are the nodes of its tree whose
paths its expressions select; for any other rule they are the first nodes at the paths that its
expressions yield.
-/
namespace DocLint

/-- The nodes that were linted for a rule, in order. -/
def Ledger.nodesOf (l : Ledger) (name : String) : List GivenNode :=
  (l.visits.filter fun v => v.rule.name == name).map Visit.node

/-- What the expressions of a rule yield: the root alone for `$`, and what the query finds otherwise. -/
def RunContext.offered (c : RunContext) (r : Rule) : List GivenNode :=
  let tree := c.inventory.tree r.resolved
  r.given.flatMap fun e =>
    if e = "$" then [⟨[rootMark], tree⟩] else (c.query e tree).found.map fun f => ⟨f.1, f.2⟩

/-- Nodes that are those of a tree whose paths a rule selects, each once. -/
structure Rule.Selects (r : Rule) (tree : Value) (nodes : List GivenNode) : Prop where
  once : (nodes.map GivenNode.path).Nodup
  complete : ∀ n, n ∈ nodes ↔ tree.walk? n.path = some n.value ∧ r.matches n.path = true

/-- Nodes that are the first ones at the different document paths among those offered, each once. -/
structure PicksFirst (offered nodes : List GivenNode) : Prop where
  once : nodes.Pairwise fun m n => n.documentPath.same m.documentPath = false
  complete : ∀ n, n ∈ nodes ↔ IsFirst offered n

/-- Among rules of different names there is one of each name. -/
theorem Rule.filter_name {rules : List Rule} (named : (rules.map Rule.name).Nodup) {r : Rule}
    (member : r ∈ rules) : rules.filter (fun s => s.name == r.name) = [r] := by
  induction rules with
  | nil => cases member
  | cons first rest ih =>
    simp only [List.map_cons, List.nodup_cons] at named
    rcases List.mem_cons.mp member with rfl | later
    · have others : rest.filter (fun s => s.name == r.name) = [] := by
        refine List.filter_eq_nil_iff.mpr fun s present same => named.1 ?_
        exact List.mem_map.mpr ⟨s, present, by simpa using same⟩
      rw [List.filter_cons_of_pos (by simp), others]
    · have unlike : first.name ≠ r.name := fun same =>
        named.1 (List.mem_map.mpr ⟨r, later, same.symm⟩)
      rw [List.filter_cons_of_neg (by simpa using unlike), ih named.2 later]

/-- The nodes that the shared walk of a tree tells one rule of are those that it selects. -/
theorem Walk.selects_notices {tree : Value} (isTree : tree.IsTree) (r : Rule) :
    r.Selects tree ((Walk.notices [r] (Walk.nodes tree none)).map Prod.snd) := by
  have told : (Walk.notices [r] (Walk.nodes tree none)).map Prod.snd =
      tree.preorder.filter fun n => r.matches n.path := by
    rw [Walk.nodes_unlimited isTree.acyclic, Walk.notices_alone, List.map_map]
    exact List.map_id _
  rw [told]
  constructor
  · exact (Value.preorder_nodup isTree).sublist (List.filter_sublist.map _)
  · intro n
    rw [List.mem_filter, Value.mem_preorder_iff isTree]

/-- When no query fails, what the expressions of a rule yield is what they offer. -/
theorem Ledger.attempts_eq_offered {l : Ledger} {r : Rule}
    (answered : ∀ e ∈ r.given, e ≠ "$" →
      (l.context.query e (l.context.inventory.tree r.resolved)).failure? = none) :
    l.attempts (l.context.inventory.tree r.resolved) r.given =
      (l.context.offered r).map .inl := by
  rw [Ledger.attempts, RunContext.offered, List.map_flatMap]
  refine List.flatMap_congr fun e member => ?_
  by_cases root : e = "$"
  · simp [Ledger.selection, root, Selection.complete]
  · simp [Ledger.selection, root, answered e member root]

/-- When neither a query nor a node fails, the nodes that are linted of what a rule queries are the first
ones at their document paths. -/
theorem Ledger.picksFirst_queried (l : Ledger) {r : Rule}
    (answered : ∀ e ∈ r.given, e ≠ "$" →
      (l.context.query e (l.context.inventory.tree r.resolved)).failure? = none)
    (unfailing : ∀ n ∈ l.queried r, (l.visit r n).trace.failure? = none) :
    PicksFirst (l.context.offered r) (l.queried r) := by
  unfold queried at unfailing ⊢
  rw [attempts_eq_offered answered] at unfailing ⊢
  have calm : ∀ n ∈ linted (l.context.failsOn r (l.locationsOf r.name)) []
      ((l.context.offered r).map .inl), l.context.failsOn r (l.locationsOf r.name) n = false := by
    intro n member
    exact Option.isSome_eq_false_iff.mpr (Option.isNone_iff_eq_none.mpr (unfailing n member))
  obtain ⟨apart, members⟩ := linted_of_none_fails calm
  exact ⟨apart, fun n => by simpa using members n⟩

namespace RunRequest

/-- What is planned for one admitted rule: what the walk of its tree tells it, or what it queries. -/
theorem plan_alone {q : RunRequest} (suppressions : Suppressions) {r : Rule} (alone : q.rules = [r])
    (admitted : r.isAdmitted q.context.inventory.formats = true) :
    q.plan suppressions =
      if r.isPrecompiled then
        (Walk.notices [r] (Walk.nodes (q.context.inventory.tree r.resolved) none)).map fun t =>
          (q.opened suppressions).visit t.1 t.2
      else ((q.opened suppressions).queried r).map ((q.opened suppressions).visit r) := by
  have silent : ∀ nodes, Walk.notices [] nodes = [] := by simp [Walk.notices]
  cases walks : r.isPrecompiled <;> cases resolved : r.resolved <;>
    simp [plan, walked, buckets, RuleBuckets.select, alone, admitted, walks, resolved, silent,
      Inventory.tree]

/-- The nodes that a run lints for a rule are what is planned for it alone. -/
theorem nodesOf_left {q : RunRequest} (schedule : Schedule) (suppressions : Suppressions)
    (named : (q.rules.map Rule.name).Nodup) {r : Rule} (member : r ∈ q.rules)
    (admitted : r.isAdmitted q.context.inventory.formats = true) :
    (q.left schedule suppressions).nodesOf r.name =
      if r.isPrecompiled then
        (Walk.notices [r] (Walk.nodes (q.context.inventory.tree r.resolved) none)).map Prod.snd
      else (q.opened suppressions).queried r := by
  have single : (q.only fun s => s.name == r.name).rules = [r] := Rule.filter_name named member
  have alone := plan_only q suppressions fun s => s.name == r.name
  rw [plan_alone suppressions single admitted] at alone
  rw [Ledger.nodesOf, left_visits, alone]
  cases r.isPrecompiled with
  | true =>
    simp only [if_true, List.map_map]
    rfl
  | false =>
    simp only [Bool.false_eq_true, if_false, List.map_map]
    exact List.map_id _

/-- A run lints for every admitted rule the nodes that the rule asks for, each of them once, and lints
nothing for any other rule or of any other tree. The trees may share parts; that no two entries of a
mapping have one key is how mappings are. Neither a listener attached earlier nor another run matters. -/
theorem runBy_lints_once (b : Switchboard) (schedule : Schedule) (q : RunRequest)
    (named : (q.rules.map Rule.name).Nodup)
    (resolvedTree : q.context.inventory.resolved.IsTree)
    (writtenTree : q.context.inventory.document.data.IsTree)
    (legible : q.declarations.Legible q.context.workingDir q.baseDir)
    (answered : ∀ r ∈ q.rules, r.isAdmitted q.context.inventory.formats = true →
      r.isPrecompiled = false → ∀ e ∈ r.given, e ≠ "$" →
        (q.context.query e (q.context.inventory.tree r.resolved)).failure? = none)
    (calm : ∀ ledger, (b.runBy schedule q).2.outcome = .ok ledger →
      ∀ v ∈ ledger.visits, v.trace.failure? = none) :
    ∃ ledger, (b.runBy schedule q).2.outcome = .ok ledger ∧
      (∀ v ∈ ledger.visits,
        v.rule ∈ q.rules ∧ v.rule.isAdmitted q.context.inventory.formats = true) ∧
      ∀ r ∈ q.rules, r.isAdmitted q.context.inventory.formats = true →
        if r.isPrecompiled then
          r.Selects (q.context.inventory.tree r.resolved) (ledger.nodesOf r.name)
        else PicksFirst (q.context.offered r) (ledger.nodesOf r.name) := by
  obtain ⟨suppressions, suppressed⟩ := exists_suppresses q legible
  have outcome := runBy_outcome b schedule suppressed
  have passes := calm _ outcome
  rw [left_visits] at passes
  refine ⟨_, outcome, ?_, ?_⟩
  · intro v visited
    rw [left_visits] at visited
    exact (visit_of_mem_plan visited).1
  · intro r member admitted
    rw [nodesOf_left schedule suppressions named member admitted]
    cases walks : r.isPrecompiled with
    | true =>
      have isTree : (q.context.inventory.tree r.resolved).IsTree := by
        cases r.resolved
        · exact writtenTree
        · exact resolvedTree
      exact Walk.selects_notices isTree r
    | false =>
      have planned : r ∈ q.buckets.plain := by
        simp [buckets, RuleBuckets.select, member, admitted, walks]
      have unfailing : ∀ n ∈ (q.opened suppressions).queried r,
          ((q.opened suppressions).visit r n).trace.failure? = none := by
        intro n queried
        refine passes _ (List.mem_append_right _ ?_)
        exact List.mem_flatMap.mpr ⟨r, planned, List.mem_map.mpr ⟨n, queried, rfl⟩⟩
      exact (q.opened suppressions).picksFirst_queried (answered r member admitted walks) unfailing

/-- A check that finds fault with everything. -/
def faulty : Action :=
  ⟨"faulty", fun _ _ _ => .problem "seen", none, none⟩

/-- A rule for the tree as it was written, with two expressions for one node. -/
def twofold : Rule :=
  { Rule.standard "twofold" [] with
    actions := [faulty]
    resolved := false
    strategy := .walk [⟨"$..x", [.descend, .key "x"]⟩, ⟨"$.b.x", [.key "b", .key "x"]⟩] }

/-- A rule whose expressions yield the root and one path twice. -/
def repeating : Rule :=
  { Rule.standard "repeating" ["$", "$.a[*]"] with actions := [faulty] }

/-- A run of rules that ask for some nodes more than once, with one that is turned off. The trees
differ. -/
def overlapping : RunRequest where
  context :=
    { inventory := { document := .sharing, resolved := Value.ofScalar (.str "plain"), formats := [] }
      query := fun _ tree => .complete [([.str "a", .int 1], tree), ([.str "a", .int 1], tree)]
      workingDir := "/" }
  rules := [twofold, repeating, { twofold with name := "off", enabled := false }]
  declarations := []
  baseDir := none

theorem overlapping_lints_once :
    ∃ ledger, (Switchboard.empty.runBy .byTurns overlapping).2.outcome = .ok ledger ∧
      twofold.Selects Value.sharedParts (ledger.nodesOf "twofold") ∧
      PicksFirst (overlapping.context.offered repeating) (ledger.nodesOf "repeating") ∧
      (ledger.visits.map fun v => (v.rule.name, v.node.path)) =
        [("twofold", [.str "a", .int 1, .str "x"]), ("twofold", [.str "b", .str "x"]),
          ("repeating", [rootMark]), ("repeating", [.str "a", .int 1])] := by
  have passing : ((Switchboard.empty.runBy .byTurns overlapping).2.outcome.toOption.map fun l =>
      l.visits.all fun v => v.trace.failure?.isNone) = some true := by decide
  have visited : ((Switchboard.empty.runBy .byTurns overlapping).2.outcome.toOption.map fun l =>
      l.visits.map fun v => (v.rule.name, v.node.path)) =
        some [("twofold", [.str "a", .int 1, .str "x"]), ("twofold", [.str "b", .str "x"]),
          ("repeating", [rootMark]), ("repeating", [.str "a", .int 1])] := by decide
  obtain ⟨ledger, outcome, _, nodes⟩ := runBy_lints_once Switchboard.empty .byTurns overlapping
    (by decide) (Value.isTree_of_increasing _ (by decide) (by decide))
    (Value.isTree_of_increasing _ (by decide) (by decide)) (by simp [Declarations.Legible, overlapping])
    (fun _ _ _ _ _ _ _ => rfl) (by
      intro ledger outcome v visited
      rw [outcome] at passing
      simpa using List.all_eq_true.mp (Option.some.inj passing) v visited)
  rw [outcome] at visited
  exact ⟨ledger, outcome, nodes twofold (by simp [overlapping]) rfl,
    nodes repeating (by simp [overlapping]) rfl, Option.some.inj visited⟩

end RunRequest
end DocLint
