import DocLint.Proofs.Check.StrayEntries
import DocLint.Proofs.Run.DottedNames
import DocLint.Proofs.Run.Identity

/-!
# A run for stray entries

A run whose only rule has the check of schema entries reports the stray entries of the nodes that the rule selects,
node by node in the order of the tree and each at its place (`runBy_reports_strays`). The check answers at once and
the places of a document with ranges are known, so nothing else is recorded and nothing is lost.
-/
namespace DocLint

namespace Trace

theorem inTurn_singleton (t : Trace) : inTurn [t] = t := by
  obtain ⟨entries, pending, failure⟩ := t
  cases failure <;> simp [inTurn, andThen, empty]

end Trace

namespace RunContext
variable {c : RunContext} {r : Rule}

/-- Where nothing is suppressed, all findings below a target are recorded, at their paths. -/
theorem record_eq (ranged : c.inventory.document.HasRanges) (nodePath : Path) (target : Path × Value)
    (answer : Answer) : ∃ entries, c.record r [] nodePath target answer = .ok entries ∧
      entries.map (fun e => (e.diagnostic.code, e.diagnostic.severity, e.diagnostic.path)) =
        (answer.getD []).map fun finding => (r.name, r.severity, target.1 ++ finding.path) := by
  obtain ⟨m, ranges⟩ := ranged
  have placed : ∀ path, c.inventory.document.rangeAt path = .ok (m.rangeAt path) := fun path => by
    rw [Document.rangeAt, ranges]
  have free : ∀ path, c.suppresses [] nodePath path = false := fun _ => rfl
  simp only [record, diagnose, placed, free, Bool.not_false, List.filter_true]
  exact ⟨_, mapM_ok_eq_map _ _, by simp only [List.map_map]; rfl⟩

/-- Linting a node with a check of its whole value that answers records the findings of the answer. -/
theorem lintNode_of_answered (ranged : c.inventory.document.HasRanges) {node : GivenNode} {action : Action}
    (alone : r.actions = [action]) (whole : action.field = none) {answer : Answer}
    (answered : action.check node.value (action.options.getD (Value.ofScalar .null))
      ⟨r.name, node.documentPath, c.inventory⟩ = .answered answer) :
    (c.lintNode r [] node).entries.map
        (fun e => (e.diagnostic.code, e.diagnostic.severity, e.diagnostic.path)) =
      (answer.getD []).map fun finding => (r.name, r.severity, node.documentPath ++ finding.path) := by
  obtain ⟨entries, recorded, same⟩ := record_eq ranged (r := r) node.documentPath (node.documentPath, node.value)
    answer
  have targets : Target.ofField c.query node.documentPath node.value action.field =
      .ok [(node.documentPath, node.value)] := by
    rw [whole]
    rfl
  rw [lintNode, alone, List.map_singleton, Trace.inTurn_singleton, lintAction, targets]
  dsimp only
  rw [List.map_singleton, Trace.inTurn_singleton, lintTarget]
  simp only [answered, recorded, same]

end RunContext

namespace RunRequest
variable {q : RunRequest} {r : Rule}

/-- The plan of a run with one admitted rule of the shared walk is to visit the nodes that it selects, in the order of
the tree. -/
theorem plan_of_admitted (suppressions : Suppressions)
    (alone : q.rules.filter (·.isAdmitted q.context.inventory.formats) = [r]) (walks : r.isPrecompiled = true)
    (tree : (q.context.inventory.tree r.resolved).IsTree) :
    q.plan suppressions =
      ((q.context.inventory.tree r.resolved).preorder.filter fun n => r.matches n.path).map
        ((q.opened suppressions).visit r) := by
  have admitted : r.isAdmitted q.context.inventory.formats = true := by
    have member : r ∈ q.rules.filter (·.isAdmitted q.context.inventory.formats) := by simp [alone]
    exact (List.mem_filter.mp member).2
  have all := plan_only q suppressions (·.isAdmitted q.context.inventory.formats)
  rw [List.filter_eq_self.mpr fun v planned => (visit_of_mem_plan planned).1.2] at all
  rw [all, plan_alone (q := q.only _) suppressions alone admitted, if_pos walks]
  change (Walk.notices [r] (Walk.nodes (q.context.inventory.tree r.resolved) none)).map _ = _
  rw [Walk.nodes_unlimited tree.acyclic, Walk.notices_alone, List.map_map]
  rfl

/-- A request whose only admitted rule is one of the shared walk with the check of schema entries, and which makes no
exceptions. -/
structure ChecksSchemas (q : RunRequest) (r : Rule) : Prop where
  alone : q.rules.filter (·.isAdmitted q.context.inventory.formats) = [r]
  walks : r.isPrecompiled = true
  checks : ∃ function options, r.actions = [⟨function, Check.typedEnum, none, options⟩]
  free : q.declarations = []

end RunRequest

/-- A stray entry of a node stands where it is reported. -/
theorem Value.walk?_of_isStrayAt {tree v entry : Value} {p : Path} {i : Nat} (leads : tree.walk? p = some v)
    (stray : v.IsStrayAt i entry) : tree.walk? (p ++ [.str "enum", .int i]) = some entry := by
  obtain ⟨entries, _, _, ⟨⟨choices, listed, isList⟩, _, _⟩, here, _⟩ := stray
  rw [Value.walk?_append, leads]
  simp only [Option.bind_some, walk?, ← field?_eq_child?, listed,
    child?_of_items? (items?_eq_some_iff.mpr isList), here]

namespace RunRequest
variable {q : RunRequest} {r : Rule}

/-- A run that only checks schemas reports, of the nodes that its rule selects in pre-order, the stray entries by
increasing positions: the entries of the list `enum` that conform to none of the declared types, apart from nulls that
the schema lets pass. Each is reported once, at its place. What is reported for several types is what is reported for
each of them, and letting null pass reports what the type `null` more does. -/
theorem runBy_reports_strays (b : Switchboard) (schedule : Schedule) (checks : q.ChecksSchemas r)
    (tree : (q.context.inventory.tree r.resolved).IsTree)
    (unmarked : (q.context.inventory.tree r.resolved).child? rootMark = none)
    (ranged : q.context.inventory.document.HasRanges) :
    ∃ (strays : Value → List Nat) (diagnostics : List Diagnostic),
      (b.runBy schedule q).2.result = .ok diagnostics ∧
      diagnostics.map (fun d => (d.code, d.severity, d.path)) =
        (((q.context.inventory.tree r.resolved).preorder.filter fun n => r.matches n.path).flatMap fun n =>
          (strays n.value).map fun i => (r.name, r.severity, n.path ++ [.str "enum", .int i])) ∧
      (∀ v, (strays v).Pairwise (· < ·) ∧ ∀ i, i ∈ strays v ↔ ∃ entry, v.IsStrayAt i entry) ∧
      (∀ n ∈ (q.context.inventory.tree r.resolved).preorder, ∀ i entry, n.value.IsStrayAt i entry →
        (q.context.inventory.tree r.resolved).walk? (n.path ++ [.str "enum", .int i]) = some entry) ∧
      (∀ (v : Value) (entries : List Value) (types : List String) (nullable : Bool) (single : String → Value),
        v.IsEnumSchema entries types nullable → types ≠ [] →
        (∀ name ∈ types, ∃ entries', (single name).IsEnumSchema entries' [name] nullable ∧
          List.Forall₂ Value.SameTypes entries entries') →
        ∀ i, i ∈ strays v ↔ ∀ name ∈ types, i ∈ strays (single name)) ∧
      (∀ (v w : Value) (entries entries' : List Value) (types types' : List String) (nullable : Bool),
        v.IsEnumSchema entries types true → w.IsEnumSchema entries' types' nullable →
        List.Forall₂ Value.SameTypes entries entries' →
        (∀ name, name ∈ types' ↔ name ∈ types ∨ name = "null") → strays v = strays w) := by
  obtain ⟨alone, walks, ⟨function, options, actions⟩, free⟩ := checks
  have suppresses : q.Suppresses [] := by
    unfold Suppresses
    rw [free]
    split <;> rfl
  have silent : q.warnings = [] := by simp [warnings, free]
  have synchronous : ∀ s ∈ q.rules, s.isAdmitted q.context.inventory.formats = true → s.IsSynchronous := by
    intro s member admitted action acts v options c turns result later
    have among : s ∈ q.rules.filter (·.isAdmitted q.context.inventory.formats) :=
      List.mem_filter.mpr ⟨member, admitted⟩
    rw [alone, List.mem_singleton] at among
    rw [among, actions, List.mem_singleton] at acts
    obtain ⟨answer, answered, _⟩ := Check.typedEnum_eq v options c
    rw [acts] at later
    cases answered.symm.trans later
  refine ⟨Check.strayPositions, _, runBy_result b schedule suppresses, ?_,
    fun v => ⟨Check.strayPositions_increasing v, fun i => Check.mem_strayPositions⟩, ?_, ?_, ?_⟩
  · rw [Ledger.diagnostics, left_entries_of_synchronous q schedule [] synchronous, silent, List.nil_append,
      plan_of_admitted [] alone walks tree, List.flatMap_map, List.map_map, List.map_flatMap]
    refine List.flatMap_congr fun n selected => ?_
    have leads := (Value.mem_preorder_iff tree n).mp (List.mem_filter.mp selected).1
    have place : n.documentPath = n.path := congrArg GivenNode.path (GivenNode.placed_of_walk? unmarked leads)
    -- the findings are made below the place in the document, which is the path in the tree
    obtain ⟨answer, answered, paths⟩ := Check.typedEnum_eq n.value (options.getD (Value.ofScalar .null))
      ⟨r.name, n.documentPath, q.context.inventory⟩
    have recorded := RunContext.lintNode_of_answered ranged actions rfl answered
    rw [place] at recorded
    have findings := congrArg (List.map fun path => (r.name, r.severity, n.path ++ path)) paths
    rw [List.map_map, List.map_map] at findings
    exact recorded.trans findings
  · intro n member i entry stray
    exact Value.walk?_of_isStrayAt ((Value.mem_preorder_iff tree n).mp member) stray
  · intro v entries types nullable single schema several singles i
    rw [Check.strayPositions_of_isEnumSchema schema, Check.mem_strays_iff_forall several]
    refine forall_congr' fun name => imp_congr_right fun member => ?_
    obtain ⟨entries', schema', alike⟩ := singles name member
    rw [Check.strayPositions_of_isEnumSchema schema', Check.strays_of_sameTypes alike]
  · intro v w entries entries' types types' nullable schema schema' alike adds
    rw [Check.strayPositions_of_isEnumSchema schema, Check.strayPositions_of_isEnumSchema schema',
      Check.strays_of_sameTypes alike, Check.strays_nullable adds]

/-- A tree of schemas for the same entries: an integer, a truth value, null and a text. -/
def levels : Value :=
  ⟨⟨#[.mapping [(.str "level", .container 1), (.str "label", .container 2), (.str "count", .container 3),
        (.str "open", .container 4)],
      .mapping [(.str "type", .container 6), (.str "enum", .container 5), (.str "nullable", .scalar (.bool true))],
      .mapping [(.str "type", .scalar (.str "string")), (.str "enum", .container 5),
        (.str "nullable", .scalar (.bool true))],
      .mapping [(.str "type", .scalar (.str "integer")), (.str "enum", .container 5),
        (.str "nullable", .scalar (.bool true))],
      .mapping [(.str "type", .container 7), (.str "enum", .container 5)],
      .list [.scalar (.int 1), .scalar (.bool true), .scalar .null, .scalar (.str "x")],
      .list [.scalar (.str "integer"), .scalar (.str "string")],
      .list [.scalar (.str "integer"), .scalar (.str "string"), .scalar (.str "null")]]⟩, .container 0⟩

/-- A rule that checks all schemas of a document. -/
def schemaRule : Rule :=
  { Rule.standard "typed-enum" [] with
    actions := [⟨"typed_enum", Check.typedEnum, none, none⟩]
    strategy := .walk [⟨"$..*", [.descend, .any]⟩] }

/-- A run with such a rule, and with another that is turned off. -/
def checkingLevels : RunRequest where
  context :=
    { inventory := .ofDocument { Document.sharing with data := levels } none none
      query := fun _ _ => .failed (.aborted "no query")
      workingDir := "/" }
  rules := [{ schemaRule with name := "off", enabled := false }, schemaRule]
  declarations := []
  baseDir := none

theorem checkingLevels_reports :
    checkingLevels.ChecksSchemas schemaRule ∧
    (checkingLevels.context.inventory.tree schemaRule.resolved).IsTree ∧
    (checkingLevels.context.inventory.tree schemaRule.resolved).child? rootMark = none ∧
    checkingLevels.context.inventory.document.HasRanges ∧
    ∃ (strays : Value → List Nat) (diagnostics : List Diagnostic),
      (Switchboard.empty.runBy .byTurns checkingLevels).2.result = .ok diagnostics ∧
      (diagnostics.map fun d => (d.code, d.path)) =
        [("typed-enum", [.str "level", .str "enum", .int 1]),
          ("typed-enum", [.str "label", .str "enum", .int 0]),
          ("typed-enum", [.str "label", .str "enum", .int 1]),
          ("typed-enum", [.str "count", .str "enum", .int 1]),
          ("typed-enum", [.str "count", .str "enum", .int 3]),
          ("typed-enum", [.str "open", .str "enum", .int 1])] ∧
      (∀ i, i ∈ strays ⟨levels.graph, .container 1⟩ ↔
        i ∈ strays ⟨levels.graph, .container 2⟩ ∧ i ∈ strays ⟨levels.graph, .container 3⟩) ∧
      strays ⟨levels.graph, .container 1⟩ = strays ⟨levels.graph, .container 4⟩ := by
  have checks : checkingLevels.ChecksSchemas schemaRule := ⟨rfl, rfl, ⟨_, _, rfl⟩, rfl⟩
  have tree : (checkingLevels.context.inventory.tree schemaRule.resolved).IsTree :=
    Value.isTree_of_increasing _ (by decide) (by decide)
  have unmarked : (checkingLevels.context.inventory.tree schemaRule.resolved).child? rootMark = none := by decide
  have ranged : checkingLevels.context.inventory.document.HasRanges := ⟨_, rfl⟩
  obtain ⟨strays, diagnostics, result, _, _, _, each, null⟩ :=
    runBy_reports_strays Switchboard.empty .byTurns checks tree unmarked ranged
  have found : ((Switchboard.empty.runBy .byTurns checkingLevels).2.result.toOption.map fun ds =>
      ds.map fun d => (d.code, d.path)) =
      some [("typed-enum", [.str "level", .str "enum", .int 1]),
        ("typed-enum", [.str "label", .str "enum", .int 0]),
        ("typed-enum", [.str "label", .str "enum", .int 1]),
        ("typed-enum", [.str "count", .str "enum", .int 1]),
        ("typed-enum", [.str "count", .str "enum", .int 3]),
        ("typed-enum", [.str "open", .str "enum", .int 1])] := by
    decide +kernel
  rw [result] at found
  -- all schemas hold the same list of entries
  let entries : List Value := [.scalar (.int 1), .scalar (.bool true), .scalar .null, .scalar (.str "x")].map
    fun node => ⟨levels.graph, node⟩
  have alike : List.Forall₂ Value.SameTypes entries entries := List.forall₂_same.mpr fun _ _ _ => Iff.rfl
  have schema (id : Nat) (types : List String) (nullable : Bool)
      (read : Check.readSchema? ⟨levels.graph, .container id⟩ = some (entries, types, nullable)) :
      Value.IsEnumSchema ⟨levels.graph, .container id⟩ entries types nullable :=
    Check.readSchema?_eq_some_iff.mp read
  have level := schema 1 ["integer", "string"] true rfl
  refine ⟨checks, tree, unmarked, ranged, strays, diagnostics, result, Option.some.inj found, fun i => ?_, ?_⟩
  · have inter := each _ entries _ true
      (fun name => ⟨levels.graph, .container (if name = "string" then 2 else 3)⟩) level (by simp) (by
        rintro name (_ | ⟨_, (_ | ⟨_, impossible⟩)⟩)
        · exact ⟨entries, schema 3 ["integer"] true rfl, alike⟩
        · exact ⟨entries, schema 2 ["string"] true rfl, alike⟩
        · cases impossible) i
    rw [inter]
    simp [and_comm]
  · exact null _ _ entries entries _ _ false level (schema 4 ["integer", "string", "null"] false rfl) alike
      (by simp [or_assoc])

end RunRequest
end DocLint
