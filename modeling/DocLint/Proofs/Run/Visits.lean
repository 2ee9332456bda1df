import DocLint.Proofs.Path.Sameness
import DocLint.Run.Ledger

/-!
# The visits of a run

A run changes its ledger by visits only, and what a visit leaves depends on the run's context and not on
what was visited before. So a rule that is evaluated through queries adds the visits of the nodes
`linted` picks from what its expressions yield: each at a path that is new, up to the first failure
(`lintAllByQuery_eq`). Without failures those are the first nodes of their paths (`linted_of_none_fails`).
-/
namespace DocLint

namespace RunContext

/-- A visit of a node for a rule. -/
def visit (c : RunContext) (rule : Rule) (locations : List Location) (node : GivenNode) : Visit :=
  ⟨rule, node, c.lintNode rule locations node⟩

/-- Whether a visit of a node fails. -/
def failsOn (c : RunContext) (rule : Rule) (locations : List Location) (node : GivenNode) : Bool :=
  (c.visit rule locations node).trace.failure?.isSome

end RunContext

/-- The nodes that are linted of what expressions yield, at paths that were not seen, up to the first
failure of a query or of a node. -/
def linted (fails : GivenNode → Bool) : List Path → List (GivenNode ⊕ Failure) → List GivenNode
  | _, [] => []
  | _, .inr _ :: _ => []
  | seen, .inl node :: rest =>
    if seen.any node.documentPath.same then linted fails seen rest
    else if fails node then [node]
    else node :: linted fails (node.documentPath :: seen) rest

namespace Ledger

/-- The state after visits. -/
def afterAll (l : Ledger) (visits : List Visit) : Ledger :=
  { l with entries := l.entries ++ visits.flatMap fun v => v.trace.entries
           pending := l.pending ++ visits.flatMap fun v => v.trace.pending
           visits := l.visits ++ visits }

theorem afterAll_nil (l : Ledger) : l.afterAll [] = l := by
  simp [afterAll]

theorem after_eq (l : Ledger) (v : Visit) : l.after v = l.afterAll [v] := by
  simp [after, afterAll]

theorem afterAll_cons (l : Ledger) (v : Visit) (rest : List Visit) :
    l.afterAll (v :: rest) = (l.afterAll [v]).afterAll rest := by
  simp [afterAll]

theorem afterAll_append (l : Ledger) (first second : List Visit) :
    l.afterAll (first ++ second) = (l.afterAll first).afterAll second := by
  simp [afterAll]

/-- The visit of a node for a rule as the run makes it. -/
def visit (l : Ledger) (rule : Rule) (node : GivenNode) : Visit :=
  l.context.visit rule (l.locationsOf rule.name) node

/-- What the expressions of a rule yield of a tree, each with the failure that ends it. -/
def attempts (l : Ledger) (tree : Value) (given : List String) : List (GivenNode ⊕ Failure) :=
  given.flatMap fun expression =>
    (l.selection tree expression).found.map (fun e => .inl ⟨e.1, e.2⟩) ++
      (l.selection tree expression).failure?.toList.map .inr

/-- The nodes that a run lints for a rule that is evaluated through queries. -/
def queried (l : Ledger) (rule : Rule) : List GivenNode :=
  linted (l.context.failsOn rule (l.locationsOf rule.name)) []
    (l.attempts (l.context.inventory.tree rule.resolved) rule.given)

theorem lint_eq (l : Ledger) (rule : Rule) (locations : List Location) (node : GivenNode) :
    l.lint rule locations node = (l.afterAll [l.context.visit rule locations node],
      (l.context.visit rule locations node).trace.failure?) := by
  rw [← after_eq]
  rfl

section
variable (c : RunContext) (rule : Rule) (locations : List Location)

/-- The nodes that are linted of what follows, unless a failure came before. -/
def lintedAfter (reached : List Path × Option Failure) (more : List (GivenNode ⊕ Failure)) :
    List GivenNode :=
  if reached.2.isSome then [] else linted (c.failsOn rule locations) reached.1 more

/-- Linting nodes adds the visits of those that are linted, whatever comes behind them. -/
theorem lintNew_eq (l : Ledger) (context : l.context = c) (seen : List Path)
    (nodes : List GivenNode) (more : List (GivenNode ⊕ Failure)) :
    ∃ first, (lintNew rule locations l seen nodes).1 =
        l.afterAll (first.map (c.visit rule locations)) ∧
      linted (c.failsOn rule locations) seen (nodes.map .inl ++ more) =
        first ++ lintedAfter c rule locations (lintNew rule locations l seen nodes).2 more := by
  subst context
  induction nodes generalizing l seen with
  | nil => exact ⟨[], (afterAll_nil l).symm, rfl⟩
  | cons node rest ih =>
    rw [List.map_cons, List.cons_append, lintNew, linted, lint_eq]
    by_cases known : seen.any node.documentPath.same = true
    · rw [if_pos known, if_pos known]
      exact ih l seen
    · rw [if_neg known, if_neg known]
      cases failed : (l.context.visit rule locations node).trace.failure? with
      | some failure =>
        refine ⟨[node], rfl, ?_⟩
        simp [RunContext.failsOn, failed, lintedAfter]
      | none =>
        obtain ⟨first, added, others⟩ := ih (l.afterAll [l.context.visit rule locations node])
          (node.documentPath :: seen)
        refine ⟨node :: first, ?_, ?_⟩
        · rw [List.map_cons]
          exact added.trans (afterAll_cons l _ _).symm
        · simp only [RunContext.failsOn, failed, Option.isSome_none, Bool.false_eq_true, if_false]
          exact congrArg (node :: ·) others

/-- Evaluating expressions adds the visits of the nodes that are linted of what they yield. -/
theorem lintSelections_eq (tree : Value) (l : Ledger) (context : l.context = c) (seen : List Path)
    (given : List String) :
    (lintSelections rule locations tree l seen given).1 =
      l.afterAll ((linted (c.failsOn rule locations) seen (l.attempts tree given)).map
        (c.visit rule locations)) := by
  induction given generalizing l seen with
  | nil => exact (afterAll_nil l).symm
  | cons expression rest ih =>
    have yielded : l.attempts tree (expression :: rest) =
        ((l.selection tree expression).found.map fun e => GivenNode.mk e.1 e.2).map .inl ++
          ((l.selection tree expression).failure?.toList.map .inr ++ l.attempts tree rest) := by
      simp [attempts]
    obtain ⟨first, added, others⟩ := lintNew_eq c rule locations l context seen
      ((l.selection tree expression).found.map fun e => ⟨e.1, e.2⟩)
      ((l.selection tree expression).failure?.toList.map .inr ++ l.attempts tree rest)
    rw [yielded, others, lintSelections]
    generalize lintNew rule locations l seen _ = reached at added others
    obtain ⟨after, seen', stopped⟩ := reached
    subst added
    cases stopped with
    | some failure => simp [lintedAfter]
    | none =>
      cases broken : (l.selection tree expression).failure? with
      | some failure => simp [lintedAfter, linted]
      | none =>
        have onward := ih (l.afterAll (first.map (c.visit rule locations))) context seen'
        simp only [onward, lintedAfter, List.map_append, afterAll_append]
        rfl

end

/-- Evaluating rules through queries adds the visits of the nodes that are linted for each of them. -/
theorem lintAllByQuery_eq (l : Ledger) (rules : List Rule) :
    (l.lintAllByQuery rules).1 =
      l.afterAll (rules.flatMap fun r => (l.queried r).map (l.visit r)) := by
  induction rules generalizing l with
  | nil => exact (afterAll_nil l).symm
  | cons rule rest ih =>
    have own := lintSelections_eq l.context rule (l.locationsOf rule.name)
      (l.context.inventory.tree rule.resolved) l rfl [] rule.given
    simp only [lintAllByQuery, lintByQuery, own, ih, List.flatMap_cons, afterAll_append]
    rfl

end Ledger

/-- A node at a path that is the same as that of no node before it. -/
def IsFirst (offered : List GivenNode) (n : GivenNode) : Prop :=
  ∃ before after, offered = before ++ n :: after ∧
    ∀ m ∈ before, n.documentPath.same m.documentPath = false

/-- The first nodes of a list are its head and those first ones of the rest that are at other paths. -/
theorem isFirst_cons (m n : GivenNode) (rest : List GivenNode) :
    IsFirst (m :: rest) n ↔
      n = m ∨ IsFirst rest n ∧ n.documentPath.same m.documentPath = false := by
  constructor
  · rintro ⟨before, after, whole, new⟩
    cases before with
    | nil =>
      cases whole
      exact Or.inl rfl
    | cons _ before =>
      cases whole
      have others := fun k earlier => new k (List.mem_cons_of_mem m earlier)
      exact Or.inr ⟨⟨before, after, rfl, others⟩, new m List.mem_cons_self⟩
  · rintro (rfl | ⟨⟨before, after, rfl, new⟩, apart⟩)
    · exact ⟨[], rest, rfl, by simp⟩
    · refine ⟨m :: before, after, rfl, ?_⟩
      intro k earlier
      rcases List.mem_cons.mp earlier with rfl | earlier
      · exact apart
      · exact new k earlier

/-- If no linted node fails, the linted ones are at different paths and are the first nodes of theirs
that were not seen. -/
theorem linted_of_none_fails {fails : GivenNode → Bool} {seen : List Path} {offered : List GivenNode}
    (calm : ∀ n ∈ linted fails seen (offered.map .inl), fails n = false) :
    (linted fails seen (offered.map .inl)).Pairwise
        (fun m n => n.documentPath.same m.documentPath = false) ∧
      ∀ n, n ∈ linted fails seen (offered.map .inl) ↔
        IsFirst offered n ∧ ∀ p ∈ seen, n.documentPath.same p = false := by
  induction offered generalizing seen with
  | nil => simp [linted, IsFirst]
  | cons node rest ih =>
    rw [List.map_cons, linted] at calm ⊢
    by_cases known : seen.any node.documentPath.same = true
    · rw [if_pos known] at calm ⊢
      obtain ⟨apart, members⟩ := ih calm
      refine ⟨apart, fun n => ?_⟩
      rw [members, isFirst_cons]
      obtain ⟨p, member, like⟩ := List.any_eq_true.mp known
      constructor
      · rintro ⟨first, unseen⟩
        refine ⟨Or.inr ⟨first, ?_⟩, unseen⟩
        -- a node like one that was skipped would be skipped for the same reason
        by_contra same
        have twice := Path.same_trans (by simpa using same) like
        simp [unseen p member] at twice
      · rintro ⟨rfl | ⟨first, _⟩, unseen⟩
        · simp [unseen p member] at like
        · exact ⟨first, unseen⟩
    · rw [if_neg known] at calm ⊢
      have passes : fails node = false := by
        by_contra stops
        exact stops (calm node (by simp [Bool.eq_true_of_not_eq_false stops]))
      simp only [passes, Bool.false_eq_true, if_false] at calm ⊢
      obtain ⟨apart, members⟩ := ih fun n member => calm n (List.mem_cons_of_mem node member)
      have fresh : ∀ p ∈ seen, node.documentPath.same p = false := by
        simpa using known
      constructor
      · exact List.pairwise_cons.mpr ⟨fun n member => ((members n).mp member).2 _ (by simp), apart⟩
      · intro n
        rw [List.mem_cons, members, isFirst_cons, List.forall_mem_cons]
        constructor
        · rintro (rfl | ⟨first, other, unseen⟩)
          · exact ⟨Or.inl rfl, fresh⟩
          · exact ⟨Or.inr ⟨first, other⟩, unseen⟩
        · rintro ⟨rfl | ⟨first, other⟩, unseen⟩
          · exact Or.inl rfl
          · exact Or.inr ⟨first, other, unseen⟩

end DocLint
