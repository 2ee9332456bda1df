import DocLint.Path.Compile
import DocLint.Proofs.Tree
import DocLint.Query.Basic

/-!
# Queries that agree with the matcher

A query agrees with the matcher of an expression when it finds on a tree what the matcher selects there
(`PathQuery.Agrees`). Listing the nodes of the tree and trying the matcher on each is such a query.
-/
namespace DocLint

/-- A query finds on a tree what the matcher of an expression selects there, and does not fail. -/
structure PathQuery.Agrees (query : PathQuery) (e : String) (tree : Value) : Prop where
  answered : (query e tree).failure? = none
  found : ∀ p v, (p, v) ∈ (query e tree).found ↔
    tree.walk? p = some v ∧ ∃ c, CompiledPath.ofExpression? e = some c ∧ c.matches p = true

/-- The expression of the root selects the root alone. -/
theorem CompiledPath.matches_root (p : Path) :
    (∃ c, ofExpression? "$" = some c ∧ c.matches p = true) ↔ p = [] := by
  have root : ofExpression? "$" = some ⟨"$", []⟩ := by decide +kernel
  cases p <;> simp [root, «matches», maxDepth, selects]

/-- Where a query agrees with the matcher, both select the same nodes for an expression; the root is selected
without a query. -/
theorem PathQuery.selects_iff {query : PathQuery} {e : String} {tree : Value} {p : Path} {v : Value}
    (agrees : e ≠ "$" → query.Agrees e tree) (leads : tree.walk? p = some v) :
    (if e = "$" then p = [] else (p, v) ∈ (query e tree).found) ↔
      ∃ c, CompiledPath.ofExpression? e = some c ∧ c.matches p = true := by
  by_cases root : e = "$"
  · rw [if_pos root, root, CompiledPath.matches_root]
  · rw [if_neg root, (agrees root).found, and_iff_right leads]

/-- The query that tries the matcher on each node of a tree. It finds each node twice, first from the
end. -/
def PathQuery.listing : PathQuery := fun e tree =>
  let found := (tree.preorder.filter fun n =>
    (CompiledPath.ofExpression? e).any (·.matches n.path)).map fun n => (n.path, n.value)
  .complete (found.reverse ++ found)

theorem PathQuery.listing_agrees (e : String) {tree : Value} (isTree : tree.IsTree) :
    PathQuery.listing.Agrees e tree := by
  refine ⟨rfl, fun p v => ?_⟩
  have chosen : (p, v) ∈ (tree.preorder.filter fun n =>
      (CompiledPath.ofExpression? e).any (·.matches n.path)).map (fun n => (n.path, n.value)) ↔
        tree.walk? p = some v ∧ (CompiledPath.ofExpression? e).any (·.matches p) = true := by
    rw [← Value.mem_preorder_iff isTree ⟨p, v⟩]
    constructor
    · intro member
      obtain ⟨n, listed, same⟩ := List.mem_map.mp member
      cases same
      exact List.mem_filter.mp listed
    · intro listed
      exact List.mem_map.mpr ⟨⟨p, v⟩, List.mem_filter.mpr listed, rfl⟩
  simp only [listing, Selection.complete, List.mem_append, List.mem_reverse, or_self, chosen,
    Option.any_eq_true]

end DocLint
