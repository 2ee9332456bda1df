import DocLint.Proofs.Tree
import DocLint.Run.Walk

/-!
# The depth of the shared walk

The walk stops where no expression can reach. Cutting it there takes away the nodes with longer paths
and keeps the order of the others (`nodes_limited`); as no rule selects any of those, the same rules
are told of the same nodes as without a limit (`notices_depthLimit`). This holds with cycles too. On an
acyclic value the walk without a limit is the plain listing (`nodes_unlimited`).
-/
namespace DocLint

/-- An expression of bounded depth selects paths of one length only. -/
theorem CompiledPath.length_of_matches {c : CompiledPath} {p : Path} {depth : Nat}
    (selected : c.matches p = true) (bounded : c.maxDepth = some depth) : p.length = depth := by
  simp only [CompiledPath.matches, bounded, Bool.and_eq_true, beq_iff_eq] at selected
  exact selected.1

namespace Walk

theorem deeper_eq_some {a b : Option Nat} {limit : Nat} (bounded : deeper a b = some limit) :
    ∃ m n, a = some m ∧ b = some n ∧ max m n = limit := by
  match a, b with
  | some m, some n => exact ⟨m, n, rfl, rfl, by simpa [deeper] using bounded⟩
  | none, _ => cases bounded
  | some _, none => cases bounded

/-- The greatest depth of some expressions is one that none of theirs exceeds. -/
theorem exists_le_of_mem {expressions : List CompiledPath} {e : CompiledPath} {limit : Nat}
    (greatest : expressions.foldr (fun e limit => deeper e.maxDepth limit) (some 0) = some limit)
    (member : e ∈ expressions) : ∃ depth ≤ limit, e.maxDepth = some depth := by
  induction expressions generalizing limit with
  | nil => simp at member
  | cons first rest ih =>
    rw [List.foldr_cons] at greatest
    obtain ⟨own, others, here, below, whole⟩ := deeper_eq_some greatest
    rcases List.mem_cons.mp member with rfl | later
    · exact ⟨own, by omega, here⟩
    · obtain ⟨depth, bound, found⟩ := ih below later
      exact ⟨depth, by omega, found⟩

/-- No rule of a walk selects a path longer than its depth limit. -/
theorem length_le_of_matches {rules : List Rule} {r : Rule} {p : Path} {limit : Nat}
    (bounded : depthLimit rules = some limit) (member : r ∈ rules)
    (selected : r.matches p = true) : p.length ≤ limit := by
  obtain ⟨e, own, found⟩ := List.any_eq_true.mp selected
  have among : e ∈ rules.flatMap Rule.expressions := List.mem_flatMap.mpr ⟨r, member, own⟩
  obtain ⟨depth, bound, deep⟩ := exists_le_of_mem bounded among
  rw [CompiledPath.length_of_matches found deep]
  exact bound

theorem nodesWithin_scalar (g : Graph) (limit : Option Nat) (fuel : Nat) (enclosing : List Nat)
    (path : Path) (s : Scalar) :
    nodesWithin g limit fuel enclosing path (.scalar s) = [(path, .scalar s)] := by
  cases fuel <;> rfl

theorem nodesWithin_container (g : Graph) (limit : Option Nat) (fuel : Nat) (enclosing : List Nat)
    (path : Path) (id : Nat) :
    nodesWithin g limit (fuel + 1) enclosing path (.container id) =
      (path, .container id) ::
        if atLimit limit path || id ∈ enclosing then []
        else
          (g.children (.container id)).flatMap fun e =>
            nodesWithin g limit fuel (id :: enclosing) (path ++ [e.1]) e.2 :=
  rfl

/-- A walk from a node goes to paths that are no shorter. -/
theorem length_le_of_mem_nodesWithin {g : Graph} {limit : Option Nat} {fuel : Nat}
    {enclosing : List Nat} {path : Path} {node : Node} {e : Path × Node}
    (member : e ∈ nodesWithin g limit fuel enclosing path node) : path.length ≤ e.1.length := by
  induction fuel generalizing enclosing path node with
  | zero => simp_all [nodesWithin]
  | succ fuel ih =>
    cases node with
    | scalar s => simp_all [nodesWithin_scalar]
    | container id =>
      rw [nodesWithin_container] at member
      rcases List.mem_cons.mp member with rfl | below
      · exact Nat.le_refl _
      · split at below
        · simp at below
        · obtain ⟨part, _, deeper⟩ := List.mem_flatMap.mp below
          have longer := ih deeper
          simp only [List.length_append, List.length_singleton] at longer
          omega

/-- A limit takes the nodes with longer paths away from a walk and nothing else. -/
theorem nodesWithin_limited (g : Graph) (limit fuel : Nat) (enclosing : List Nat) (path : Path)
    (node : Node) (short : path.length ≤ limit) :
    nodesWithin g (some limit) fuel enclosing path node =
      (nodesWithin g none fuel enclosing path node).filter fun e => e.1.length ≤ limit := by
  induction fuel generalizing enclosing path node with
  | zero => simp [nodesWithin, short]
  | succ fuel ih =>
    cases node with
    | scalar s => simp [nodesWithin_scalar, short]
    | container id =>
      rw [nodesWithin_container, nodesWithin_container,
        List.filter_cons_of_pos (by simpa using short)]
      congr 1
      by_cases inside : id ∈ enclosing
      · simp [inside]
      · simp only [atLimit, Option.any_some, Option.any_none, inside, decide_false, Bool.or_false,
          Bool.false_eq_true, if_false, decide_eq_true_eq]
        split
        case isTrue full =>
          -- at the limit, all that the unlimited walk finds below has a longer path
          refine (List.filter_eq_nil_iff.mpr ?_).symm
          intro e member
          obtain ⟨part, _, deeper⟩ := List.mem_flatMap.mp member
          have longer := length_le_of_mem_nodesWithin deeper
          simp only [List.length_append, List.length_singleton] at longer
          simp only [decide_eq_true_eq]
          omega
        case isFalse room =>
          rw [List.filter_flatMap]
          refine List.flatMap_congr ?_
          intro e _
          refine ih _ _ _ ?_
          simp only [List.length_append, List.length_singleton]
          omega

/-- The nodes of a walk with a limit are those of the unlimited walk with short enough paths. -/
theorem nodes_limited (tree : Value) (limit : Nat) :
    nodes tree (some limit) = (nodes tree none).filter fun n => n.path.length ≤ limit := by
  simp only [nodes, nodesWithin_limited tree.graph limit _ [] [] tree.node (Nat.zero_le _),
    List.filter_map, Function.comp_def]

/-- Nodes that no rule selects do not matter to who is told of what. -/
theorem notices_filter (rules : List Rule) (nodes : List GivenNode) (keep : GivenNode → Bool)
    (unselected : ∀ n ∈ nodes, keep n = false → ∀ r ∈ rules, r.matches n.path = false) :
    notices rules (nodes.filter keep) = notices rules nodes := by
  induction nodes with
  | nil => rfl
  | cons n rest ih =>
    have others := ih fun m member => unselected m (List.mem_cons_of_mem n member)
    cases kept : keep n with
    | true =>
      rw [List.filter_cons_of_pos kept]
      simp only [notices, List.flatMap_cons] at others ⊢
      rw [others]
    | false =>
      have none : rules.filter (·.matches n.path) = [] := by
        simpa using unselected n List.mem_cons_self kept
      rw [List.filter_cons_of_neg (by simp [kept]), others]
      simp [notices, none]

/-- The depth limit of a walk changes nothing in who is told of what. -/
theorem notices_depthLimit (tree : Value) (rules : List Rule) :
    notices rules (nodes tree (depthLimit rules)) = notices rules (nodes tree none) := by
  cases bounded : depthLimit rules with
  | none => rfl
  | some limit =>
    rw [nodes_limited]
    refine notices_filter rules _ _ ?_
    intro n _ long r member
    by_contra selected
    have short := length_le_of_matches bounded member (by simpa using selected)
    simp only [decide_eq_false_iff_not] at long
    exact long short

/-- On a node without a cycle below it the unlimited walk is the listing, as long as neither runs out
of depth. -/
theorem nodesWithin_unlimited {g : Graph} (fuel depth : Nat) (enclosing : List Nat) (path : Path)
    (node : Node) (acyclic : Value.Acyclic ⟨g, node⟩) (inside : g.Encloses enclosing node)
    (enough : g.containers.size < fuel + enclosing.length)
    (deep : g.containers.size < depth + enclosing.length) :
    nodesWithin g none fuel enclosing path node = g.listing depth path node := by
  have bound := inside.length_le
  induction fuel generalizing depth enclosing path node with
  | zero => omega
  | succ fuel ih =>
    cases depth with
    | zero => omega
    | succ depth =>
      cases node with
      | scalar s => simp [nodesWithin_scalar, Graph.listing, Graph.children]
      | container id =>
        have fresh := acyclic.not_enclosing inside
        rw [nodesWithin_container, Graph.listing]
        simp only [atLimit, Option.any_none, fresh, decide_false, Bool.or_self,
          Bool.false_eq_true, if_false]
        congr 1
        refine List.flatMap_congr ?_
        intro e member
        have has : g.HasPart (.container id) e.2 := ⟨e.1, member⟩
        have within := inside.step fresh has
        refine ih depth _ _ _ (acyclic.part has) within ?_ ?_ within.length_le
        all_goals
          simp only [List.length_cons]
          omega

/-- On an acyclic value the unlimited walk meets the nodes of the listing in their order. -/
theorem nodes_unlimited {tree : Value} (acyclic : tree.Acyclic) :
    nodes tree none = tree.preorder := by
  unfold nodes Value.preorder
  rw [nodesWithin_unlimited _ tree.graph.depthBound [] [] tree.node acyclic (.nil _ _)]
  all_goals
    simp only [Graph.depthBound, List.length_nil]
    omega

end Walk
end DocLint
