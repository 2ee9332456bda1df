import DocLint.Proofs.Path.Keys
import DocLint.Proofs.Query.Listing
import DocLint.Proofs.Run.Once

/-!
# The places of nodes

A run tells nodes apart by their document paths: it lints a node once under its document path, and records
there what it finds. The path of the root mark alone stands for the root, so this is right for a tree that
does not have the root mark for a key (`runBy_places`), and wrong for one that has (`marked_displaced`).
-/
namespace DocLint

/-- A node with its document path for a path. -/
def GivenNode.placed (n : GivenNode) : GivenNode :=
  ⟨n.documentPath, n.value⟩

/-- A value whose nodes have places: it has no cycles, no two keys of a mapping count as one, and the root
mark is no key at its top. -/
structure Value.HasPlaces (v : Value) : Prop where
  acyclic : v.Acyclic
  keyed : v.graph.HasKeys
  unmarked : v.child? rootMark = none

/-- Nodes that are under their document paths the ones with a property, each once. -/
structure Places (nodes : List GivenNode) (property : GivenNode → Prop) : Prop where
  once : (nodes.map GivenNode.placed).Nodup
  complete : ∀ n, n ∈ nodes.map GivenNode.placed ↔ property n

namespace RunContext

/-- A node of the tree of a rule that the rule selects: the matcher does for a rule of a shared walk, and
else a query does, where the expression of the root stands for the root. -/
def SelectsNode (c : RunContext) (r : Rule) (n : GivenNode) : Prop :=
  let tree := c.inventory.tree r.resolved
  tree.walk? n.path = some n.value ∧
    if r.isPrecompiled then r.matches n.path = true
    else ∃ e ∈ r.given, if e = "$" then n.path = [] else (n.path, n.value) ∈ (c.query e tree).found

/-- The queries for a rule do not fail, and what they find are nodes of its tree. -/
structure QueriesNodes (c : RunContext) (r : Rule) : Prop where
  answered : ∀ e ∈ r.given, e ≠ "$" →
    (c.query e (c.inventory.tree r.resolved)).failure? = none
  found : ∀ e ∈ r.given, e ≠ "$" → ∀ f ∈ (c.query e (c.inventory.tree r.resolved)).found,
    (c.inventory.tree r.resolved).walk? f.1 = some f.2

end RunContext

theorem GivenNode.placed_of_walk? {tree : Value} (unmarked : tree.child? rootMark = none)
    {n : GivenNode} (leads : tree.walk? n.path = some n.value) : n.placed = n := by
  have other : n.path ≠ [rootMark] := by
    intro marked
    simp [marked, Value.walk?, unmarked] at leads
  simp [placed, documentPath, other]

theorem exists_isFirst {offered : List GivenNode} {n : GivenNode} (member : n ∈ offered) :
    ∃ m, IsFirst offered m ∧ n.documentPath.same m.documentPath = true := by
  induction offered with
  | nil => cases member
  | cons k rest ih =>
    have here : n.documentPath.same k.documentPath = true →
        ∃ m, IsFirst (k :: rest) m ∧ n.documentPath.same m.documentPath = true := fun same =>
      ⟨k, (isFirst_cons k k rest).mpr (Or.inl rfl), same⟩
    rcases List.mem_cons.mp member with rfl | later
    · exact here (Path.same_refl _)
    · obtain ⟨m, first, same⟩ := ih later
      cases apart : m.documentPath.same k.documentPath with
      | true => exact here (Path.same_trans same apart)
      | false => exact ⟨m, (isFirst_cons k m rest).mpr (Or.inr ⟨first, apart⟩), same⟩

section
variable {c : RunContext} {r : Rule} {nodes : List GivenNode}

/-- What a rule is offered are, under their document paths, the nodes that it selects. -/
theorem RunContext.mem_offered (plain : r.isPrecompiled = false) (queries : c.QueriesNodes r)
    (unmarked : (c.inventory.tree r.resolved).child? rootMark = none) (m : GivenNode) :
    m ∈ (c.offered r).map GivenNode.placed ↔ c.SelectsNode r m := by
  obtain ⟨p, v⟩ := m
  simp only [List.mem_map, offered, List.mem_flatMap, SelectsNode, plain, Bool.false_eq_true, if_false]
  constructor
  · rintro ⟨n, ⟨e, given, yielded⟩, here⟩
    by_cases root : e = "$"
    · rw [if_pos root, List.mem_singleton] at yielded
      subst yielded
      cases here
      exact ⟨rfl, e, given, (if_pos root).mpr rfl⟩
    · rw [if_neg root] at yielded
      obtain ⟨f, found, rfl⟩ := List.mem_map.mp yielded
      have leads := queries.found e given root f found
      rw [GivenNode.placed_of_walk? unmarked leads] at here
      cases here
      exact ⟨leads, e, given, (if_neg root).mpr found⟩
  · rintro ⟨leads, e, given, selected⟩
    by_cases root : e = "$"
    · rw [if_pos root] at selected
      subst selected
      cases leads
      exact ⟨⟨[rootMark], _⟩, ⟨e, given, by rw [if_pos root]; exact List.mem_singleton_self _⟩, rfl⟩
    · rw [if_neg root] at selected
      refine ⟨⟨p, v⟩, ⟨e, given, ?_⟩, GivenNode.placed_of_walk? unmarked leads⟩
      rw [if_neg root]
      exact List.mem_map.mpr ⟨(p, v), selected, rfl⟩

/-- The first nodes at the different document paths of those that a rule is offered are the nodes that it
selects. -/
theorem PicksFirst.places (picked : PicksFirst (c.offered r) nodes) (plain : r.isPrecompiled = false)
    (queries : c.QueriesNodes r) (tree : (c.inventory.tree r.resolved).HasPlaces) :
    Places nodes (c.SelectsNode r) := by
  have offered := RunContext.mem_offered plain queries tree.unmarked
  constructor
  · refine List.pairwise_map.mpr (picked.once.imp fun {m n} apart equal => ?_)
    have same : m.documentPath = n.documentPath := congrArg GivenNode.path equal
    rw [same, Path.same_refl] at apart
    exact Bool.noConfusion apart
  · intro m
    rw [← offered]
    constructor
    · intro member
      obtain ⟨n, listed, rfl⟩ := List.mem_map.mp member
      obtain ⟨before, after, whole, _⟩ := (picked.complete n).mp listed
      exact List.mem_map.mpr ⟨n, by simp [whole], rfl⟩
    · intro member
      obtain ⟨n, among, rfl⟩ := List.mem_map.mp member
      obtain ⟨k, first, same⟩ := exists_isFirst among
      obtain ⟨before, after, whole, _⟩ := id first
      -- both are nodes of the tree, so paths that count as one are equal and lead to one value
      have leads := ((offered n.placed).mp member).1
      have leads' := ((offered k.placed).mp (List.mem_map.mpr ⟨k, by simp [whole], rfl⟩)).1
      have path : n.placed.path = k.placed.path :=
        Value.path_eq_of_same tree.keyed leads leads' same
      rw [path, leads'] at leads
      have equal : k.placed = n.placed :=
        GivenNode.mk.injEq .. ▸ ⟨path.symm, Option.some.inj leads⟩
      exact equal ▸ List.mem_map.mpr ⟨k, (picked.complete k).mpr first, rfl⟩

theorem Rule.Selects.places (selected : r.Selects (c.inventory.tree r.resolved) nodes)
    (walks : r.isPrecompiled = true) (tree : (c.inventory.tree r.resolved).HasPlaces) :
    Places nodes (c.SelectsNode r) := by
  have same : nodes.map GivenNode.placed = nodes := by
    refine (List.map_congr_left fun n member => ?_).trans (List.map_id nodes)
    exact GivenNode.placed_of_walk? tree.unmarked ((selected.complete n).mp member).1
  constructor
  · rw [same]
    exact .of_map _ selected.once
  · intro n
    rw [same, selected.complete, RunContext.SelectsNode, if_pos walks]

end

namespace RunRequest
variable {q : RunRequest} {r : Rule}

/-- The nodes that a run lints for an admitted rule are, under their document paths, those that the rule
selects. -/
theorem places_left (suppressions : Suppressions) (schedule : Schedule)
    (named : (q.rules.map Rule.name).Nodup) (member : r ∈ q.rules)
    (admitted : r.isAdmitted q.context.inventory.formats = true)
    (tree : (q.context.inventory.tree r.resolved).HasPlaces)
    (queries : r.isPrecompiled = false → q.context.QueriesNodes r)
    (calm : r.isPrecompiled = false →
      ∀ v ∈ q.plan suppressions, v.rule.name = r.name → v.trace.failure? = none) :
    Places ((q.left schedule suppressions).nodesOf r.name) (q.context.SelectsNode r) := by
  rw [nodesOf_left schedule suppressions named member admitted]
  cases walks : r.isPrecompiled with
  | true =>
    have isTree := Value.isTree_of_hasKeys tree.acyclic tree.keyed
    exact (Walk.selects_notices isTree r).places walks tree
  | false =>
    have planned : r ∈ q.buckets.plain := by
      simp [buckets, RuleBuckets.select, member, admitted, walks]
    have unfailing : ∀ n ∈ (q.opened suppressions).queried r,
        ((q.opened suppressions).visit r n).trace.failure? = none := by
      intro n queried
      refine calm walks _ (List.mem_append_right _ ?_) rfl
      exact List.mem_flatMap.mpr ⟨r, planned, List.mem_map.mpr ⟨n, queried, rfl⟩⟩
    have picked := (q.opened suppressions).picksFirst_queried (queries walks).answered unfailing
    exact picked.places walks (queries walks) tree

/-- In a tree without the root mark for a key, a run lints every node that an admitted rule selects, under
the path of the node and under no other, and finds problems of it at paths through that path only. Different
nodes have different paths, so neither is taken for the other; and where the keys of each mapping differ in
their texts, no location covers both. -/
theorem runBy_places (b : Switchboard) (schedule : Schedule) (q : RunRequest) {first : Ledger}
    (begins : q.opening.2 = .ok first) (named : (q.rules.map Rule.name).Nodup) {r : Rule}
    (member : r ∈ q.rules) (admitted : r.isAdmitted q.context.inventory.formats = true)
    (tree : (q.context.inventory.tree r.resolved).HasPlaces)
    (queries : r.isPrecompiled = false → q.context.QueriesNodes r)
    (calm : r.isPrecompiled = false → ∀ ledger, (b.runBy schedule q).2.outcome = .ok ledger →
      ∀ v ∈ ledger.visits, v.rule.name = r.name → v.trace.failure? = none) :
    ∃ ledger, (b.runBy schedule q).2.outcome = .ok ledger ∧
      ((ledger.nodesOf r.name).map GivenNode.placed).Nodup ∧
      (∀ n, n ∈ (ledger.nodesOf r.name).map GivenNode.placed ↔ q.context.SelectsNode r n) ∧
      (∀ n, q.context.SelectsNode r n → ∃ v ∈ ledger.visits, v.rule = r ∧ v.node.placed = n ∧
        ∀ e ∈ v.trace.recorded, e ∈ ledger.entries ∧ e.node = n.path ∧ n.path <+: e.diagnostic.path) ∧
      ∀ n m, q.context.SelectsNode r n → q.context.SelectsNode r m → n ≠ m →
        n.path.same m.path = false ∧
          ((q.context.inventory.tree r.resolved).graph.HasTexts → ∀ (l : Location) workingDir source,
            l.covers workingDir source n.path = true → l.covers workingDir source m.path = false) := by
  obtain ⟨suppressions, suppressed⟩ := suppresses_of_opening begins
  have outcome := runBy_outcome b schedule suppressed
  have places := places_left suppressions schedule named member admitted tree queries
    fun plain v planned => calm plain _ outcome v (left_visits q schedule suppressions ▸ planned)
  refine ⟨_, outcome, places.once, places.complete, ?_, ?_⟩
  · intro n selected
    obtain ⟨k, linted, here⟩ := List.mem_map.mp ((places.complete n).mpr selected)
    obtain ⟨v, visited, rfl⟩ := List.mem_map.mp linted
    obtain ⟨among, own⟩ := List.mem_filter.mp visited
    have planned := left_visits q schedule suppressions ▸ among
    have rule : v.rule = r := List.inj_on_of_nodup_map named (visit_of_mem_plan planned).1.1 member
      (by simpa using own)
    refine ⟨v, among, rule, here, fun e recorded => ⟨?_, ?_, ?_⟩⟩
    · refine (left_entries_perm q schedule suppressions).mem_iff.mpr ?_
      exact List.mem_append_right _ (List.mem_flatMap.mpr ⟨v, planned, recorded⟩)
    · exact (tags_of_mem_plan planned recorded).1.trans (congrArg GivenNode.path here)
    · exact congrArg GivenNode.path here ▸ prefix_of_mem_plan planned recorded
  · intro n m selected selected' different
    have leads := selected.1
    have leads' := selected'.1
    have apart : n.path ≠ m.path := by
      intro equal
      rw [equal, leads'] at leads
      exact different (GivenNode.mk.injEq .. ▸ ⟨equal, (Option.some.inj leads).symm⟩)
    refine ⟨?_, fun spelled l workingDir source covered => ?_⟩
    · exact Bool.eq_false_iff.mpr fun same => apart (Value.path_eq_of_same tree.keyed leads leads' same)
    · simp only [Location.covers, Bool.and_eq_true, beq_iff_eq] at covered
      refine Bool.eq_false_iff.mpr fun covered' => ?_
      simp only [Location.covers, Bool.and_eq_true, beq_iff_eq] at covered'
      exact apart (Value.path_eq_of_texts spelled leads leads' (covered.2.symm.trans covered'.2))

/-- A rule with expressions for one node, which is evaluated by itself though they compile. -/
def fallback : Rule :=
  { Rule.standard "fallback" ["$..x", "$", "$.b.*"] with actions := [faulty] }

/-- A run with such a rule, from which one node is excepted. -/
def overlappingByQuery : RunRequest where
  context :=
    { inventory := .ofDocument .sharing none none
      query := .listing
      workingDir := "/" }
  rules := [twofold, fallback]
  declarations := [("fallback", ["#/a/1/x"])]
  baseDir := none

theorem sharing_hasPlaces : Value.sharedParts.HasPlaces where
  acyclic := (Value.isTree_of_increasing _ (by decide) (by decide)).acyclic
  keyed := Graph.hasKeys_of_containers (by decide)
  unmarked := by decide

theorem overlappingByQuery_places :
    ∃ ledger, (Switchboard.empty.runBy .byTurns overlappingByQuery).2.outcome = .ok ledger ∧
      (∀ n, n ∈ (ledger.nodesOf "fallback").map GivenNode.placed ↔
        overlappingByQuery.context.SelectsNode fallback n) ∧
      (ledger.nodesOf "fallback").map GivenNode.documentPath =
        [[.str "b", .str "x"], [.str "a", .int 1, .str "x"], []] := by
  have passing : ((Switchboard.empty.runBy .byTurns overlappingByQuery).2.outcome.toOption.map fun l =>
      l.visits.all fun v => v.trace.failure?.isNone) = some true := by decide +kernel
  have linted : ((Switchboard.empty.runBy .byTurns overlappingByQuery).2.outcome.toOption.map fun l =>
      (l.nodesOf "fallback").map GivenNode.documentPath) =
        some [[.str "b", .str "x"], [.str "a", .int 1, .str "x"], []] := by decide +kernel
  obtain ⟨first, begins⟩ : ∃ first, overlappingByQuery.opening.2 = .ok first := ⟨_, rfl⟩
  have agrees := fun e => PathQuery.listing_agrees e
    (Value.isTree_of_hasKeys sharing_hasPlaces.acyclic sharing_hasPlaces.keyed)
  have queries : overlappingByQuery.context.QueriesNodes fallback :=
    ⟨fun e _ _ => (agrees e).answered, fun e _ _ f found => (((agrees e).found f.1 f.2).mp found).1⟩
  obtain ⟨ledger, outcome, _, complete, _⟩ := runBy_places Switchboard.empty .byTurns
    overlappingByQuery begins (by decide) (r := fallback) (by simp [overlappingByQuery]) rfl
    sharing_hasPlaces (fun _ => queries) fun _ ledger outcome v visited _ => by
      rw [outcome] at passing
      simpa using List.all_eq_true.mp (Option.some.inj passing) v visited
  rw [outcome] at linted
  exact ⟨ledger, outcome, complete, Option.some.inj linted⟩

/-- A value with the root mark for its only key. -/
def markedValue : Value :=
  ⟨⟨#[.mapping [(rootMark, .scalar (.int 1))]]⟩, .container 0⟩

/-- A rule for the parts of the root. -/
def partsOfRoot : Rule :=
  { Rule.standard "parts" [] with actions := [faulty], strategy := .walk [⟨"$.*", [.any]⟩] }

/-- A rule for the root and its part under the root mark, which is evaluated by itself. -/
def rootAndMarked : Rule :=
  { Rule.standard "both" ["$", "$['$']"] with actions := [faulty] }

/-- A run of rules that select the node under the root mark. -/
def marked : RunRequest where
  context :=
    { inventory := .ofDocument { Document.sharing with data := markedValue } none none
      query := .listing
      workingDir := "/" }
  rules := [partsOfRoot, rootAndMarked]
  declarations := []
  baseDir := none

/-- The node under the root mark is taken for the root: what is found there is recorded at the root, and
after the root it is not linted at all. -/
theorem marked_displaced :
    let n : GivenNode := ⟨[rootMark], ⟨markedValue.graph, .scalar (.int 1)⟩⟩
    (marked.context.SelectsNode partsOfRoot n ∧ marked.context.SelectsNode rootAndMarked n) ∧
    ∃ ledger, (Switchboard.empty.runBy .byTurns marked).2.outcome = .ok ledger ∧
      (ledger.nodesOf "parts").map GivenNode.documentPath = [[]] ∧
      (ledger.nodesOf "both").map (fun n => n.value.node) = [.container 0] ∧
      (ledger.entries.map fun e => (e.diagnostic.code, e.diagnostic.path)) =
        [("parts", []), ("both", [])] := by
  intro n
  have isTree : markedValue.IsTree := Value.isTree_of_increasing _ (by decide) (by decide)
  have compiled : CompiledPath.ofExpression? "$['$']" = some ⟨"$['$']", [.key "$"]⟩ := by decide +kernel
  have found := ((PathQuery.listing_agrees "$['$']" isTree).found n.path n.value).mpr
    ⟨rfl, _, compiled, by decide⟩
  have parts : ((Switchboard.empty.runBy .byTurns marked).2.outcome.toOption.map fun l =>
      (l.nodesOf "parts").map GivenNode.documentPath) = some [[]] := by decide +kernel
  have both : ((Switchboard.empty.runBy .byTurns marked).2.outcome.toOption.map fun l =>
      (l.nodesOf "both").map fun n => n.value.node) = some [.container 0] := by decide +kernel
  have recorded : ((Switchboard.empty.runBy .byTurns marked).2.outcome.toOption.map fun l =>
      l.entries.map fun e => (e.diagnostic.code, e.diagnostic.path)) =
        some [("parts", []), ("both", [])] := by decide +kernel
  have unsuppressed : marked.Suppresses [] := rfl
  have outcome := runBy_outcome Switchboard.empty .byTurns unsuppressed
  refine ⟨⟨⟨rfl, rfl⟩, rfl, "$['$']", by decide, ?_⟩, _, outcome, ?_⟩
  · rw [if_neg (by decide)]
    exact found
  · rw [outcome] at parts both recorded
    exact ⟨Option.some.inj parts, Option.some.inj both, Option.some.inj recorded⟩

end RunRequest
end DocLint
