import DocLint.Proofs.Run.Identity

/-!
# One rule by two strategies

A rule whose expressions compile can be served by the shared walk or evaluated by itself through path
queries. If the queries find what the matcher selects, both lint the same nodes under the same document
paths, each once, and record the same (`runBy_compiling`).
-/
namespace DocLint

/-- Linting a node goes by its document path. -/
theorem RunContext.lintNode_placed (c : RunContext) (rule : Rule) (locations : List Location)
    (n : GivenNode) : c.lintNode rule locations n.placed = c.lintNode rule locations n := by
  have here : n.placed.documentPath = n.documentPath := by
    by_cases marked : n.path = [rootMark] <;>
      simp [GivenNode.placed, GivenNode.documentPath, marked]
  have same : c.lintAction rule locations n.placed = c.lintAction rule locations n := by
    funext action
    rw [lintAction, lintAction, here]
    rfl
  rw [lintNode, lintNode, same]

namespace Rule
variable (r : Rule)

theorem name_compile : r.compile.name = r.name := by
  unfold compile
  split <;> rfl

theorem isAdmitted_compile (formats : List String) :
    r.compile.isAdmitted formats = r.isAdmitted formats := by
  unfold compile
  split <;> rfl

theorem resolved_compile : r.compile.resolved = r.resolved := by
  unfold compile
  split <;> rfl

/-- How the nodes of a rule are found does not matter for what linting one of them leaves. -/
theorem lintNode_compile (c : RunContext) (locations : List Location) (n : GivenNode) :
    c.lintNode r.compile locations n = c.lintNode r locations n := by
  unfold compile
  split <;> rfl

/-- The rule, compiled if it has a name. -/
def compileNamed (name : String) : Rule :=
  if r.name == name then r.compile else r

theorem name_compileNamed (name : String) : (r.compileNamed name).name = r.name := by
  unfold compileNamed
  split
  · exact r.name_compile
  · rfl

variable {r}

/-- A compiled rule selects what one of its expressions selects. -/
theorem matches_compile (compiles : r.compile.isPrecompiled = true) (p : Path) :
    r.compile.matches p = true ↔
      ∃ e ∈ r.given, ∃ c, CompiledPath.ofExpression? e = some c ∧ c.matches p = true := by
  unfold compile at compiles ⊢
  split at compiles
  case h_1 expressions compiled =>
    have members := mem_mapM_some compiled
    change expressions.any (·.matches p) = true ↔ _
    simp only [List.any_eq_true, members]
    constructor
    · rintro ⟨c, ⟨e, given, compiled⟩, selects⟩
      exact ⟨e, given, c, compiled, selects⟩
    · rintro ⟨e, given, c, compiled, selects⟩
      exact ⟨c, ⟨e, given, compiled⟩, selects⟩
  case h_2 => cases compiles

end Rule

/-- A rule that is evaluated by itself though all its expressions compile, and whose queries agree with
the matcher on the tree of the rule. -/
structure Interchangeable (c : RunContext) (r : Rule) : Prop where
  plain : r.isPrecompiled = false
  compiles : r.compile.isPrecompiled = true
  tree : (c.inventory.tree r.resolved).HasPlaces
  agree : ∀ e ∈ r.given, e ≠ "$" → c.query.Agrees e (c.inventory.tree r.resolved)

section
variable {c : RunContext} {r : Rule}

theorem Interchangeable.queriesNodes (rule : Interchangeable c r) : c.QueriesNodes r where
  answered e given root := (rule.agree e given root).answered
  found e given root f found := (((rule.agree e given root).found f.1 f.2).mp found).1

/-- Compiled, the rule selects the same nodes. -/
theorem Interchangeable.selectsNode_compile (rule : Interchangeable c r) (n : GivenNode) :
    c.SelectsNode r.compile n ↔ c.SelectsNode r n := by
  simp only [RunContext.SelectsNode, r.resolved_compile, rule.compiles, rule.plain, if_true,
    Bool.false_eq_true, if_false, Rule.matches_compile rule.compiles]
  refine and_congr_right fun leads => exists_congr fun e => and_congr_right fun given => ?_
  exact (PathQuery.selects_iff (rule.agree e given) leads).symm

end

namespace RunRequest

/-- A request with the rules of a name compiled. -/
def compiling (q : RunRequest) (name : String) : RunRequest :=
  { q with rules := q.rules.map (·.compileNamed name) }

section
variable {q : RunRequest} {suppressions : Suppressions} {r : Rule}

theorem names_compiling (q : RunRequest) (name : String) :
    (q.compiling name).rules.map Rule.name = q.rules.map Rule.name := by
  rw [compiling, List.map_map]
  exact List.map_congr_left fun s _ => s.name_compileNamed name

theorem suppresses_compiling (suppressed : q.Suppresses suppressions) (name : String) :
    (q.compiling name).Suppresses suppressions := by
  unfold Suppresses at suppressed ⊢
  rw [names_compiling]
  exact suppressed

theorem mem_compiling (member : r ∈ q.rules) : r.compile ∈ (q.compiling r.name).rules :=
  List.mem_map.mpr ⟨r, member, if_pos (beq_self_eq_true r.name)⟩

/-- Compiling a rule leaves the others. -/
theorem only_compiling (q : RunRequest) (name : String) :
    (q.compiling name).only (fun s => s.name != name) = q.only fun s => s.name != name := by
  simp only [only, compiling, List.filter_map, Function.comp_def, Rule.name_compileNamed]
  congr 1
  refine (List.map_congr_left fun s member => ?_).trans (List.map_id _)
  have other : ¬ (s.name == name) = true := by simpa using (List.mem_filter.mp member).2
  exact if_neg other

/-- Of the rules of a run only one has the name of a visit's rule. -/
theorem rule_of_mem_own (named : (q.rules.map Rule.name).Nodup) (member : r ∈ q.rules) {v : Visit}
    (own : v ∈ (q.plan suppressions).filter fun v => v.rule.name == r.name) :
    v ∈ q.plan suppressions ∧ v.rule = r := by
  obtain ⟨planned, same⟩ := List.mem_filter.mp own
  exact ⟨planned, List.inj_on_of_nodup_map named (visit_of_mem_plan planned).1.1 member
    (by simpa using same)⟩

/-- A rule that is not admitted is linted for no node. -/
theorem nodesOf_left_rejected (suppressions : Suppressions) (schedule : Schedule)
    (named : (q.rules.map Rule.name).Nodup) (member : r ∈ q.rules) (rejected : r.isAdmitted q.context.inventory.formats = false) :
    (q.left schedule suppressions).nodesOf r.name = [] := by
  rw [Ledger.nodesOf, left_visits, List.map_eq_nil_iff, List.eq_nil_iff_forall_not_mem]
  intro v own
  obtain ⟨planned, rfl⟩ := rule_of_mem_own named member own
  exact Bool.false_ne_true (rejected.symm.trans (visit_of_mem_plan planned).1.2)

/-- What is recorded for a rule is what linting its nodes under their document paths leaves. -/
theorem recorded_own (suppressions : Suppressions) (schedule : Schedule)
    (named : (q.rules.map Rule.name).Nodup) (member : r ∈ q.rules) :
    (((q.plan suppressions).filter fun v => v.rule.name == r.name).flatMap
        fun v => v.trace.recorded) =
      (((q.left schedule suppressions).nodesOf r.name).map GivenNode.placed).flatMap fun n =>
        (q.context.lintNode r ((q.opened suppressions).locationsOf r.name) n).recorded := by
  rw [Ledger.nodesOf, left_visits, List.map_map, List.flatMap_map]
  refine List.flatMap_congr fun v own => ?_
  obtain ⟨planned, rfl⟩ := rule_of_mem_own named member own
  rw [Function.comp_apply, q.context.lintNode_placed, (visit_of_mem_plan planned).2]
  rfl

/-- A rule is linted for the same nodes whether it is evaluated by itself or compiled. -/
theorem nodesOf_compiling (schedule schedule' : Schedule) (named : (q.rules.map Rule.name).Nodup)
    (member : r ∈ q.rules) (rule : Interchangeable q.context r)
    (calm : ∀ v ∈ q.plan suppressions, v.rule.name = r.name → v.trace.failure? = none) :
    (((q.left schedule suppressions).nodesOf r.name).map GivenNode.placed).Perm
      ((((q.compiling r.name).left schedule' suppressions).nodesOf r.name).map
        GivenNode.placed) := by
  have named' := names_compiling q r.name ▸ named
  have member' := mem_compiling member
  have taken := r.isAdmitted_compile q.context.inventory.formats
  cases admitted : r.isAdmitted q.context.inventory.formats with
  | false =>
    have none' := nodesOf_left_rejected suppressions schedule' named' member'
      (taken.trans admitted)
    rw [r.name_compile] at none'
    rw [nodesOf_left_rejected suppressions schedule named member admitted, none']
  | true =>
    have lints := places_left suppressions schedule named member admitted rule.tree
      (fun _ => rule.queriesNodes) fun _ => calm
    have plain : r.compile.isPrecompiled ≠ false := by simp [rule.compiles]
    have lints' := places_left suppressions schedule' named' member'
      (taken.trans admitted) (r.resolved_compile ▸ rule.tree) (fun same => absurd same plain)
      fun same => absurd same plain
    rw [r.name_compile] at lints'
    refine (List.perm_ext_iff_of_nodup lints.once lints'.once).mpr fun n => ?_
    exact (lints.complete n).trans
      ((rule.selectsNode_compile n).symm.trans (lints'.complete n).symm)

/-- A rule records the same whether it is evaluated by itself or compiled, and so do the others. -/
theorem recorded_compiling (named : (q.rules.map Rule.name).Nodup) (member : r ∈ q.rules)
    (rule : Interchangeable q.context r)
    (calm : ∀ v ∈ q.plan suppressions, v.rule.name = r.name → v.trace.failure? = none) :
    ((q.plan suppressions).flatMap fun v => v.trace.recorded).Perm
      (((q.compiling r.name).plan suppressions).flatMap fun v => v.trace.recorded) := by
  have parts : ∀ plan : List Visit, (plan.filter (fun v => v.rule.name == r.name) ++
      plan.filter fun v => v.rule.name != r.name).Perm plan :=
    fun plan => List.filter_append_perm _ plan
  have others := plan_only q suppressions fun s => s.name != r.name
  have others' := plan_only (q.compiling r.name) suppressions fun s => s.name != r.name
  rw [only_compiling, ← others] at others'
  have own := recorded_own suppressions .byTurns named member
  have own' := recorded_own suppressions .byTurns
    (names_compiling q r.name ▸ named) (mem_compiling member)
  simp only [r.name_compile, r.lintNode_compile] at own'
  have nodes := nodesOf_compiling .byTurns .byTurns named member rule calm
  refine ((parts _).flatMap_right _).symm.trans (List.Perm.trans ?_ ((parts _).flatMap_right _))
  rw [List.flatMap_append, List.flatMap_append, own, own', others']
  exact (nodes.flatMap_right _).append_right _

end

/-- A run gives the same diagnostics, up to their order, when a rule that is evaluated by itself is
compiled for the shared walk, if the queries of its expressions find what the matcher selects: in any order
and any number of times. Suppressions make no difference, nor do the other rules. -/
theorem runBy_compiling (b b' : Switchboard) (schedule schedule' : Schedule) (q : RunRequest)
    {first : Ledger} (begins : q.opening.2 = .ok first) (named : (q.rules.map Rule.name).Nodup)
    {r : Rule} (member : r ∈ q.rules) (rule : Interchangeable q.context r)
    (calm : ∀ ledger, (b.runBy schedule q).2.outcome = .ok ledger →
      ∀ v ∈ ledger.visits, v.rule.name = r.name → v.trace.failure? = none) :
    ∃ diagnostics diagnostics', (b.runBy schedule q).2.result = .ok diagnostics ∧
      (b'.runBy schedule' (q.compiling r.name)).2.result = .ok diagnostics' ∧
      diagnostics.Perm diagnostics' := by
  obtain ⟨suppressions, suppressed⟩ := suppresses_of_opening begins
  have suppressed' := suppresses_compiling suppressed r.name
  have passes := calm _ (runBy_outcome b schedule suppressed)
  rw [left_visits] at passes
  have same := recorded_compiling named member rule passes
  refine ⟨_, _, runBy_result b schedule suppressed, runBy_result b' schedule' suppressed',
    List.Perm.map _ ?_⟩
  refine (left_entries_perm q schedule suppressions).trans ?_
  exact (same.append_left _).trans (left_entries_perm (q.compiling r.name) schedule' suppressions).symm

theorem overlappingByQuery_compiling :
    Interchangeable overlappingByQuery.context fallback ∧
    ∃ diagnostics diagnostics',
      (Switchboard.empty.runBy .byTurns overlappingByQuery).2.result = .ok diagnostics ∧
      (Switchboard.empty.runBy .byTurns (overlappingByQuery.compiling "fallback")).2.result =
        .ok diagnostics' ∧
      diagnostics.Perm diagnostics' ∧
      (diagnostics'.map fun d => (d.code, d.path)) =
        [("fallback", []), ("fallback", [.str "b", .str "x"]), ("twofold", [.str "a", .int 1, .str "x"]),
          ("twofold", [.str "b", .str "x"])] := by
  have isTree := Value.isTree_of_hasKeys sharing_hasPlaces.acyclic sharing_hasPlaces.keyed
  have rule : Interchangeable overlappingByQuery.context fallback :=
    { plain := rfl
      compiles := by decide +kernel
      tree := sharing_hasPlaces
      agree := fun e _ _ => PathQuery.listing_agrees e isTree }
  have passing : ((Switchboard.empty.runBy .byTurns overlappingByQuery).2.outcome.toOption.map fun l =>
      l.visits.all fun v => v.trace.failure?.isNone) = some true := by decide +kernel
  have found : ((Switchboard.empty.runBy .byTurns (overlappingByQuery.compiling
      "fallback")).2.result.toOption.map fun diagnostics =>
        diagnostics.map fun d => (d.code, d.path)) =
          some [("fallback", []), ("fallback", [.str "b", .str "x"]),
            ("twofold", [.str "a", .int 1, .str "x"]), ("twofold", [.str "b", .str "x"])] := by
    decide +kernel
  obtain ⟨first, begins⟩ : ∃ first, overlappingByQuery.opening.2 = .ok first := ⟨_, rfl⟩
  obtain ⟨diagnostics, diagnostics', plain, compiled, same⟩ := runBy_compiling Switchboard.empty
    Switchboard.empty .byTurns .byTurns overlappingByQuery begins (by decide)
    (r := fallback) (by simp [overlappingByQuery]) rule fun ledger outcome v visited _ => by
      rw [outcome] at passing
      simpa using List.all_eq_true.mp (Option.some.inj passing) v visited
  refine ⟨rule, diagnostics, diagnostics', plain, compiled, same, ?_⟩
  have compiled' : (Switchboard.empty.runBy .byTurns (overlappingByQuery.compiling
    "fallback")).2.result = .ok diagnostics' := compiled
  rw [compiled'] at found
  exact Option.some.inj found

end RunRequest
end DocLint
