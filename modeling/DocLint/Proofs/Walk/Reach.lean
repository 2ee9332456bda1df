import DocLint.Proofs.Walk.Delivery
import Mathlib.Data.Set.Card

/-!
# Where the shared walk comes to

Values may contain themselves. The walk meets a node under every path that leads to it without passing a
container twice and that is no longer than the limit (`mem_nodes_iff`), and under each such path once. A
path that passes no container twice has no more segments than there are containers, so the walk ends. What
is around a node is forgotten beside it: a container that several paths lead to is entered under each of
them (`traverse_meets`).
-/
namespace DocLint

namespace Value

/-- The nodes that a path passes on its way from a value, that of the value first. Where the path ends is
not passed. -/
def passed (v : Value) : Path → List Node
  | [] => []
  | s :: rest => v.node :: ((v.child? s).map fun w => w.passed rest).getD []

/-- A path that goes on passes what it passed before, and then what it passes from there. -/
theorem passed_append {v w : Value} {p : Path} (leads : v.walk? p = some w) (q : Path) :
    v.passed (p ++ q) = v.passed p ++ w.passed q := by
  induction p generalizing v with
  | nil =>
    cases leads
    rfl
  | cons s rest ih =>
    obtain ⟨part, found, onward⟩ := Option.bind_eq_some_iff.mp leads
    simp [passed, found, ih onward]

/-- A path that goes on passes the value that it starts from. -/
theorem passed_of_child? {v w : Value} {s : Segment} (found : v.child? s = some w) (rest : Path) :
    v.passed (s :: rest) = v.node :: w.passed rest := by
  simp [passed, found]

end Value

namespace Walk

/-- Whether a walk of a tree with a limit on the depth comes to a path: it leads somewhere, passes no
container twice and is no longer than the limit. -/
structure Meets (tree : Value) (limit : Option Nat) (p : Path) : Prop where
  leads : (tree.walk? p).isSome
  simple : (tree.passed p).Nodup
  short : ∀ depth ∈ limit, p.length ≤ depth

variable {g : Graph} {limit : Option Nat}

/-- The walk lists nothing that the listing to its depth does not, and in the same order. -/
theorem nodesWithin_sublist (g : Graph) (limit : Option Nat) (fuel : Nat) (enclosing : List Nat) (path : Path) (node : Node) :
    (nodesWithin g limit fuel enclosing path node).Sublist (g.listing fuel path node) := by
  induction fuel generalizing enclosing path node with
  | zero => exact List.Sublist.refl _
  | succ fuel ih =>
    cases node with
    | scalar s => simp [nodesWithin_scalar, Graph.listing]
    | container id =>
      rw [nodesWithin_container, Graph.listing]
      refine List.Sublist.cons_cons _ ?_
      split
      · exact List.nil_sublist _
      · generalize g.children (.container id) = parts
        induction parts with
        | nil => exact List.Sublist.refl _
        | cons e rest others => exact (ih _ _ _).append others

/-- A path is at a limit when the limit leaves no room for another segment. -/
theorem atLimit_eq_false {path : Path} :
    atLimit limit path = false ↔ ∀ depth ∈ limit, path.length < depth := by
  cases limit <;> simp [atLimit]

/-- Whether a path leads from a node that is inside some containers to another, entering none of those and
no other container twice. -/
structure Enters (g : Graph) (enclosing : List Nat) (node : Node) (q : Path) (n : Node) : Prop where
  leads : Value.walk? ⟨g, node⟩ q = some ⟨g, n⟩
  simple : (Value.passed ⟨g, node⟩ q).Nodup
  outside : ∀ id ∈ enclosing, .container id ∉ Value.passed ⟨g, node⟩ q

theorem enters_nil {enclosing : List Nat} {node n : Node} : Enters g enclosing node [] n ↔ n = node := by
  constructor
  · intro enters
    simpa [Value.walk?, eq_comm] using enters.leads
  · rintro rfl
    exact ⟨rfl, List.nodup_nil, by simp [Value.passed]⟩

/-- A path goes on from a container to a part of it, which is inside that container as well. -/
theorem enters_cons (distinct : ∀ n, ((g.children n).map Prod.fst).Nodup) {enclosing : List Nat}
    {id : Nat} {s : Segment} {q : Path} {n : Node} :
    Enters g enclosing (.container id) (s :: q) n ↔
      id ∉ enclosing ∧ ∃ m, (s, m) ∈ g.children (.container id) ∧ Enters g (id :: enclosing) m q n := by
  constructor
  · rintro ⟨leads, simple, outside⟩
    obtain ⟨part, found, onward⟩ := Option.bind_eq_some_iff.mp leads
    obtain ⟨m, rfl, member⟩ := Value.child?_eq_some found
    rw [Value.passed_of_child? found] at simple outside
    obtain ⟨apart, simple⟩ := List.nodup_cons.mp simple
    refine ⟨fun around => outside id around List.mem_cons_self, m, member, onward, simple, ?_⟩
    intro other around
    rcases List.mem_cons.mp around with rfl | around
    · exact apart
    · exact fun passes => outside other around (List.mem_cons_of_mem _ passes)
  · rintro ⟨fresh, m, member, leads, simple, outside⟩
    have found := Value.child?_of_mem (distinct _) member
    have passes := Value.passed_of_child? found q
    refine ⟨?_, ?_, ?_⟩
    · rw [Value.walk?, found]
      exact leads
    · rw [passes]
      exact List.nodup_cons.mpr ⟨outside id List.mem_cons_self, simple⟩
    · intro other around
      rw [passes, List.mem_cons, not_or]
      refine ⟨?_, outside other (List.mem_cons_of_mem id around)⟩
      rintro ⟨⟩
      exact fresh around

/-- From a node inside some containers the walk meets what the paths lead to that enter containers once
and stay within the limit. It does not run out of depth. -/
theorem mem_nodesWithin (distinct : ∀ n, ((g.children n).map Prod.fst).Nodup) (fuel : Nat)
    (enclosing : List Nat) (path p : Path) (node n : Node) (inside : g.Encloses enclosing node)
    (enough : g.containers.size < fuel + enclosing.length) (short : ∀ depth ∈ limit, path.length ≤ depth) :
    (p, n) ∈ nodesWithin g limit fuel enclosing path node ↔
      ∃ q, p = path ++ q ∧ (∀ depth ∈ limit, p.length ≤ depth) ∧ Enters g enclosing node q n := by
  induction fuel generalizing enclosing path node with
  | zero =>
    have bound := inside.length_le
    omega
  | succ fuel ih =>
    have here : p = path ∧ n = node → ∃ q, p = path ++ q ∧ (∀ depth ∈ limit, p.length ≤ depth) ∧
        Enters g enclosing node q n := by
      rintro ⟨rfl, same⟩
      exact ⟨[], by simp, short, enters_nil.mpr same⟩
    cases node with
    | scalar s =>
      rw [nodesWithin_scalar, List.mem_singleton, Prod.mk.injEq]
      refine ⟨here, ?_⟩
      rintro ⟨q, rfl, _, enters⟩
      cases q with
      | nil => exact ⟨by simp, enters_nil.mp enters⟩
      | cons s q =>
        have leads := enters.leads
        simp [Value.walk?, Value.child?, Value.children, Graph.children] at leads
    | container id =>
      rw [nodesWithin_container, List.mem_cons, Prod.mk.injEq]
      have further : id ∉ enclosing → (∀ depth ∈ limit, path.length < depth) → ∀ e,
          e ∈ g.children (.container id) →
            ((p, n) ∈ nodesWithin g limit fuel (id :: enclosing) (path ++ [e.1]) e.2 ↔
              ∃ q, p = path ++ e.1 :: q ∧ (∀ depth ∈ limit, p.length ≤ depth) ∧
                Enters g (id :: enclosing) e.2 q n) := by
        intro fresh room e member
        have below := ih (id :: enclosing) (path ++ [e.1]) e.2 (inside.step fresh ⟨e.1, member⟩)
          (by rw [List.length_cons]; omega) (fun depth given => by simpa using room depth given)
        simpa using below
      constructor
      · rintro (same | below)
        · exact here same
        · split at below
          · cases below
          case isFalse enters =>
            simp only [Bool.or_eq_true, decide_eq_true_eq, not_or, Bool.not_eq_true,
              atLimit_eq_false] at enters
            obtain ⟨e, member, deeper⟩ := List.mem_flatMap.mp below
            obtain ⟨q, same, bounded, onward⟩ := (further enters.2 enters.1 e member).mp deeper
            exact ⟨e.1 :: q, same, bounded, (enters_cons distinct).mpr ⟨enters.2, e.2, member, onward⟩⟩
      · rintro ⟨q, same, bounded, enters⟩
        cases q with
        | nil => exact Or.inl ⟨by simpa using same, enters_nil.mp enters⟩
        | cons s q =>
          obtain ⟨fresh, m, member, onward⟩ := (enters_cons distinct).mp enters
          have room : ∀ depth ∈ limit, path.length < depth := by
            intro depth given
            have whole := bounded depth given
            rw [same, List.length_append, List.length_cons] at whole
            omega
          refine Or.inr ?_
          simp only [atLimit_eq_false.mpr room, fresh, decide_false, Bool.or_self, Bool.false_eq_true,
            if_false]
          exact List.mem_flatMap.mpr ⟨(s, m), member,
            (further fresh room (s, m) member).mpr ⟨q, same, bounded, onward⟩⟩

/-- The nodes that a walk meets are those at the paths that it comes to. -/
theorem mem_nodes_iff {tree : Value} (distinct : ∀ n, ((tree.graph.children n).map Prod.fst).Nodup)
    (limit : Option Nat) (n : GivenNode) :
    n ∈ nodes tree limit ↔ tree.walk? n.path = some n.value ∧ Meets tree limit n.path := by
  obtain ⟨p, v⟩ := n
  have reached := fun m => @mem_nodesWithin tree.graph limit distinct (tree.graph.depthBound + 1) [] [] p
    tree.node m (.nil _ _) (by simp only [Graph.depthBound]; omega) (by simp)
  simp only [List.nil_append, exists_eq_left'] at reached
  constructor
  · intro member
    obtain ⟨e, listed, same⟩ := List.mem_map.mp member
    cases same
    obtain ⟨short, enters⟩ := (reached e.2).mp listed
    exact ⟨enters.leads, Option.isSome_of_eq_some enters.leads, enters.simple, short⟩
  · rintro ⟨leads, _, simple, short⟩
    obtain ⟨m, rfl⟩ := Value.graph_of_walk? leads
    exact List.mem_map.mpr ⟨(p, m), (reached m).mpr ⟨short, leads, simple, by simp⟩, rfl⟩

/-- A walk meets no path twice. -/
theorem nodes_nodup {tree : Value} (distinct : ∀ n, ((tree.graph.children n).map Prod.fst).Nodup)
    (limit : Option Nat) : ((nodes tree limit).map GivenNode.path).Nodup := by
  have once := Graph.listing_nodup distinct (tree.graph.depthBound + 1) [] tree.node
  have part := (nodesWithin_sublist tree.graph limit (tree.graph.depthBound + 1) [] []
    tree.node).map Prod.fst
  simpa [nodes, Function.comp_def] using once.sublist part

/-- A container that a walk comes to under a path is entered there, unless it is around itself or the limit
leaves no room: the walk comes to all its parts. -/
theorem Meets.enter {tree : Value} {p : Path} {id : Nat} {s : Segment} {part : Value}
    (met : Meets tree limit p) (leads : tree.walk? p = some ⟨tree.graph, .container id⟩)
    (outside : .container id ∉ tree.passed p) (room : ∀ depth ∈ limit, p.length < depth)
    (found : Value.child? ⟨tree.graph, .container id⟩ s = some part) :
    Meets tree limit (p ++ [s]) := by
  have passes : tree.passed (p ++ [s]) = tree.passed p ++ [.container id] := by
    rw [Value.passed_append leads, Value.passed_of_child? found]
    rfl
  refine ⟨?_, ?_, ?_⟩
  · rw [Value.walk?_append, leads]
    simp [Value.walk?, found]
  · rw [passes]
    exact List.nodup_append.mpr ⟨met.simple, List.nodup_singleton _, by
      rintro n before m only rfl
      exact outside (List.mem_singleton.mp only ▸ before)⟩
  · intro depth given
    simpa using room depth given

end Walk

namespace Switchboard

/-- A shared walk of any value, also one that contains itself, meets every path once that leads somewhere,
passes no container twice and is within the depth limit of the rules, and no other; it tells the rules of
just these nodes and returns their number. A container is entered under each path that it is met under,
unless it is around itself or at the limit. That a mapping has no key twice is how mappings are. -/
theorem traverse_meets (b : Switchboard) (tree : Value) (rules : List Rule) (served : rules ≠ [])
    (distinct : ∀ n, ((tree.graph.children n).map Prod.fst).Nodup) :
    let limit := Walk.depthLimit rules
    ∃ met : List GivenNode,
      (b.traverse tree rules).board.told = b.told ++ Walk.notices rules met ∧
      (b.traverse tree rules).visited = met.length ∧
      (met.map GivenNode.path).Nodup ∧
      (∀ n, n ∈ met ↔ tree.walk? n.path = some n.value ∧ Walk.Meets tree limit n.path) ∧
      (b.traverse tree rules).visited = {p | Walk.Meets tree limit p}.ncard ∧
      ∀ p id s part, Walk.Meets tree limit p → tree.walk? p = some ⟨tree.graph, .container id⟩ →
        .container id ∉ tree.passed p → (∀ depth ∈ limit, p.length < depth) →
          Value.child? ⟨tree.graph, .container id⟩ s = some part →
            p ++ [s] ∈ met.map GivenNode.path := by
  intro limit
  have once := Walk.nodes_nodup distinct limit
  have members := Walk.mem_nodes_iff distinct limit
  have counted : (b.traverse tree rules).visited = (Walk.nodes tree limit).length := by
    simp only [traverse, List.isEmpty_eq_false_iff.mpr served, Bool.false_eq_true, if_false]
    rfl
  have paths : ∀ p, p ∈ (Walk.nodes tree limit).map GivenNode.path ↔ Walk.Meets tree limit p := by
    intro p
    rw [List.mem_map]
    constructor
    · rintro ⟨n, member, rfl⟩
      exact ((members n).mp member).2
    · intro met
      obtain ⟨v, leads⟩ := Option.isSome_iff_exists.mp met.leads
      exact ⟨⟨p, v⟩, (members ⟨p, v⟩).mpr ⟨leads, met⟩, rfl⟩
  refine ⟨Walk.nodes tree limit, ?_, counted, once, members, ?_, ?_⟩
  · rw [traverse_board, (deliver_effects b _).2.1, Walk.notices_depthLimit]
  · have size := List.toFinset_card_of_nodup once
    have set : {p | Walk.Meets tree limit p} =
        ((Walk.nodes tree limit).map GivenNode.path).toFinset := by
      ext p
      simp only [Set.mem_ofPred_eq, List.coe_toFinset, paths]
    rw [set, Set.ncard_coe_finset, size, List.length_map, counted]
  · intro p id s part met leads outside room found
    exact (paths _).mpr (met.enter leads outside room found)

/-- A mapping that is an item of a list of its own, beside a mapping that is used twice. -/
def cyclic : Value :=
  ⟨⟨#[.mapping [(.str "a", .container 1), (.str "b", .container 2)],
      .list [.container 2, .container 0],
      .mapping [(.str "x", .scalar (.int 1))]]⟩, .container 0⟩

theorem traverse_meets_cyclic :
    shallowAndDeep ≠ [] ∧ (∀ n, ((cyclic.graph.children n).map Prod.fst).Nodup) ∧
    {p | Walk.Meets cyclic none p}.ncard = 7 ∧
    (Switchboard.empty.traverse cyclic shallowAndDeep).visited = 7 ∧
    ¬ Walk.Meets cyclic none [.str "a", .int 1, .str "b"] ∧
    ∃ met : List GivenNode, (met.map GivenNode.path).Nodup ∧
      [.str "a", .int 0, .str "x"] ∈ met.map GivenNode.path ∧
      [.str "b", .str "x"] ∈ met.map GivenNode.path := by
  have served : shallowAndDeep ≠ [] := by simp [shallowAndDeep]
  have distinct : ∀ n, ((cyclic.graph.children n).map Prod.fst).Nodup :=
    Graph.forall_children (fun parts => (parts.map Prod.fst).Nodup) List.nodup_nil (by decide)
  have visited : (Switchboard.empty.traverse cyclic shallowAndDeep).visited = 7 := by decide
  obtain ⟨met, _, _, once, _, size, entered⟩ :=
    traverse_meets Switchboard.empty cyclic shallowAndDeep served distinct
  refine ⟨served, distinct, size.symm.trans visited, visited, fun met => ?_, met, once, ?_, ?_⟩
  · exact absurd met.simple (by decide)
  · exact entered [.str "a", .int 0] 2 (.str "x") _ ⟨rfl, by decide, nofun⟩ rfl (by decide) nofun rfl
  · exact entered [.str "b"] 2 (.str "x") _ ⟨rfl, by decide, nofun⟩ rfl (by decide) nofun rfl

end Switchboard
end DocLint
