import DocLint.Proofs.Lists
import DocLint.Run.Walk
import Mathlib.Data.List.Nodup
import Mathlib.Logic.Relation

/-!
# Values as trees

What the nodes of a value are, said without the walk: a node is where a path leads, and `preorder` lists
all of them by recursion on the depth. Parts may be shared. Without cycles the listing is complete
(`mem_preorder_iff`), and with the keys of every mapping distinct it has each path once
(`preorder_nodup`).
-/
namespace DocLint
open Relation

/-- Whether a node is no container, or one with a greater number than the given. -/
def Node.isBeyond (id : Nat) : Node → Bool
  | .scalar _ => true
  | .container part => id < part

namespace Graph

/-- One node has another as a part. -/
def HasPart (g : Graph) (parent part : Node) : Prop :=
  ∃ segment, (segment, part) ∈ g.children parent

/-- The nodes from a node down in depth-first pre-order, as far as a depth. -/
def listing (g : Graph) : Nat → Path → Node → List (Path × Node)
  | 0, path, node => [(path, node)]
  | depth + 1, path, node =>
    (path, node) :: (g.children node).flatMap fun e => listing g depth (path ++ [e.1]) e.2

/-- Containers around a node: each of them once, and all on the way to it. -/
structure Encloses (g : Graph) (enclosing : List Nat) (node : Node) : Prop where
  nodup : enclosing.Nodup
  inRange : ∀ id ∈ enclosing, id < g.containers.size
  above : ∀ id ∈ enclosing, TransGen g.HasPart (.container id) node

/-- Only containers of the graph have parts. -/
theorem container_of_hasPart {g : Graph} {parent part : Node} (has : g.HasPart parent part) :
    ∃ id, parent = .container id ∧ id < g.containers.size := by
  obtain ⟨segment, member⟩ := has
  cases parent with
  | scalar s => simp [children] at member
  | container id =>
    refine ⟨id, rfl, ?_⟩
    by_contra outside
    have absent : g.containers[id]? = none := Array.getElem?_eq_none (by omega)
    simp [children, absent] at member

/-- What holds of the parts of every container and of no parts holds of the parts of every node. -/
theorem forall_children {g : Graph} (holds : List (Scalar × Node) → Prop) (none : holds [])
    (each : ∀ id < g.containers.size, holds (g.children (.container id))) (n : Node) :
    holds (g.children n) := by
  by_cases empty : g.children n = []
  · rwa [empty]
  · obtain ⟨e, member⟩ := List.exists_mem_of_ne_nil _ empty
    obtain ⟨id, rfl, bound⟩ := container_of_hasPart ⟨e.1, member⟩
    exact each id bound

/-- All paths of a listing go through the path that it starts at. -/
theorem prefix_of_mem_listing {g : Graph} (depth : Nat) (path p : Path) (node : Node)
    (member : p ∈ (g.listing depth path node).map Prod.fst) : path <+: p := by
  induction depth generalizing path node with
  | zero => simp_all [Graph.listing]
  | succ depth ih =>
    simp only [Graph.listing, List.map_cons, List.mem_cons, List.map_flatMap,
      List.mem_flatMap] at member
    rcases member with rfl | ⟨e, _, below⟩
    · exact List.prefix_rfl
    · exact (List.prefix_append path [e.1]).trans (ih _ _ below)

/-- With distinct keys a listing has every path once. -/
theorem listing_nodup {g : Graph} (distinct : ∀ n, ((g.children n).map Prod.fst).Nodup)
    (depth : Nat) (path : Path) (node : Node) :
    ((g.listing depth path node).map Prod.fst).Nodup := by
  induction depth generalizing path node with
  | zero => simp [Graph.listing]
  | succ depth ih =>
    simp only [Graph.listing, List.map_cons, List.map_flatMap, List.nodup_cons]
    constructor
    · intro member
      obtain ⟨e, _, below⟩ := List.mem_flatMap.mp member
      have longer := (prefix_of_mem_listing depth (path ++ [e.1]) path e.2 below).length_le
      rw [List.length_append] at longer
      exact Nat.not_succ_le_self _ longer
    · refine List.nodup_flatMap.mpr ⟨fun e _ => ih _ _, ?_⟩
      refine (List.pairwise_map.mp (distinct node)).imp ?_
      intro e f different p left right
      -- both paths go on from the same node, so they part at the first segment
      have first := prefix_of_mem_listing depth (path ++ [e.1]) p e.2 left
      have second := prefix_of_mem_listing depth (path ++ [f.1]) p f.2 right
      have same := (List.prefix_of_prefix_length_le first second (by simp)).eq_of_length (by simp)
      exact different (by simpa using same)

namespace Encloses
variable {g : Graph} {enclosing : List Nat} {node : Node}

theorem nil (g : Graph) (node : Node) : g.Encloses [] node :=
  ⟨List.nodup_nil, by simp, by simp⟩

/-- There are no more containers around a node than the graph has. -/
theorem length_le (inside : g.Encloses enclosing node) :
    enclosing.length ≤ g.containers.size := by
  have bounded : enclosing ⊆ List.range g.containers.size := fun id member =>
    List.mem_range.mpr (inside.inRange id member)
  simpa using inside.nodup.length_le_of_subset bounded

/-- A part of a container is inside that container as well. -/
theorem step {id : Nat} {part : Node} (inside : g.Encloses enclosing (.container id))
    (fresh : id ∉ enclosing) (has : g.HasPart (.container id) part) :
    g.Encloses (id :: enclosing) part := by
  obtain ⟨_, same, bound⟩ := container_of_hasPart has
  cases same
  refine ⟨List.nodup_cons.mpr ⟨fresh, inside.nodup⟩, ?_, ?_⟩
  · intro other member
    rcases List.mem_cons.mp member with rfl | member
    · exact bound
    · exact inside.inRange other member
  · intro other member
    rcases List.mem_cons.mp member with rfl | member
    · exact .single has
    · exact (inside.above other member).tail has

end Encloses
end Graph

namespace Value

/-- No node of a value contains itself, directly or through others. -/
def Acyclic (v : Value) : Prop :=
  ∀ n, ReflTransGen v.graph.HasPart v.node n → ¬ TransGen v.graph.HasPart n n

/-- A value without cycles in which every mapping has each key once. Parts may be shared. -/
structure IsTree (v : Value) : Prop where
  acyclic : v.Acyclic
  distinct : ∀ n, ((v.graph.children n).map Prod.fst).Nodup

/-- The nodes of a value in depth-first pre-order. -/
def preorder (v : Value) : List GivenNode :=
  (v.graph.listing v.graph.depthBound [] v.node).map fun e => ⟨e.1, ⟨v.graph, e.2⟩⟩

/-- The parts of an acyclic value are acyclic. -/
theorem Acyclic.part {v : Value} (acyclic : v.Acyclic) {n : Node}
    (has : v.graph.HasPart v.node n) : Acyclic ⟨v.graph, n⟩ :=
  fun m below => acyclic m (.head has below)

/-- A value has no cycles when every container has a greater number than the ones it is part of, as in a
graph that was read from the outside in. -/
theorem acyclic_of_increasing (v : Value)
    (increasing : ∀ id < v.graph.containers.size,
      ∀ e ∈ v.graph.children (.container id), e.2.isBeyond id = true) : v.Acyclic := by
  have grows : ∀ {n m : Node}, TransGen v.graph.HasPart n m →
      ∀ id part, n = .container id → m = .container part → id < part := by
    have once : ∀ id part, v.graph.HasPart (.container id) (.container part) → id < part := by
      rintro id part ⟨segment, member⟩
      obtain ⟨_, same, bound⟩ := Graph.container_of_hasPart ⟨segment, member⟩
      cases same
      simpa [Node.isBeyond] using increasing id bound _ member
    intro n m below
    induction below with
    | single has =>
      rintro id part rfl rfl
      exact once id part has
    | tail _ has ih =>
      rintro id part rfl rfl
      obtain ⟨between, rfl, _⟩ := Graph.container_of_hasPart has
      exact Nat.lt_trans (ih id between rfl rfl) (once between part has)
  intro n _ loop
  obtain ⟨_, has, _⟩ := TransGen.head'_iff.mp loop
  obtain ⟨id, rfl, _⟩ := Graph.container_of_hasPart has
  exact Nat.lt_irrefl id (grows loop id id rfl rfl)

/-- With distinct keys such a value is a tree. -/
theorem isTree_of_increasing (v : Value)
    (increasing : ∀ id < v.graph.containers.size,
      ∀ e ∈ v.graph.children (.container id), e.2.isBeyond id = true)
    (distinct : ∀ id < v.graph.containers.size,
      ((v.graph.children (.container id)).map Prod.fst).Nodup) : v.IsTree :=
  ⟨v.acyclic_of_increasing increasing,
    Graph.forall_children (fun parts => (parts.map Prod.fst).Nodup) List.nodup_nil distinct⟩

/-- A mapping that is met twice, as an item of a list and by itself. -/
def sharedParts : Value :=
  ⟨⟨#[.mapping [(.str "a", .container 1), (.str "b", .container 2)],
      .list [.scalar .null, .container 2],
      .mapping [(.str "x", .scalar (.int 1))]]⟩, .container 0⟩

example : sharedParts.IsTree :=
  isTree_of_increasing sharedParts (by decide) (by decide)

/-- A node of an acyclic value is not around itself. -/
theorem Acyclic.not_enclosing {g : Graph} {enclosing : List Nat} {id : Nat}
    (acyclic : Acyclic ⟨g, .container id⟩) (inside : g.Encloses enclosing (.container id)) :
    id ∉ enclosing :=
  fun member => acyclic _ .refl (inside.above id member)

/-- Where a segment leads is a part under that segment. -/
theorem child?_eq_some {g : Graph} {node : Node} {s : Segment} {w : Value}
    (found : child? ⟨g, node⟩ s = some w) :
    ∃ n, w = ⟨g, n⟩ ∧ (s, n) ∈ g.children node := by
  obtain ⟨entry, first, rfl⟩ := Option.map_eq_some_iff.mp found
  have same : entry.1 = s := by simpa using List.find?_some first
  obtain ⟨e, member, rfl⟩ := List.mem_map.mp (List.mem_of_find?_eq_some first)
  exact ⟨e.2, rfl, by simpa [← same] using member⟩

/-- With distinct keys a segment leads to every part under it. -/
theorem child?_of_mem {g : Graph} {node n : Node} {s : Segment}
    (distinct : ((g.children node).map Prod.fst).Nodup) (member : (s, n) ∈ g.children node) :
    child? ⟨g, node⟩ s = some ⟨g, n⟩ := by
  have first : (g.children node).find? (fun e => e.1 == s) = some (s, n) :=
    (find?_key_eq_some distinct).mpr ⟨member, rfl⟩
  simp only [child?, children, List.find?_map, Function.comp_def, first, Option.map_some]

/-- A path that leads to a node of an acyclic value is no longer than the graph has containers: those
that it passes are all different. -/
theorem Acyclic.length_le {g : Graph} {enclosing : List Nat} (p : Path) {node : Node} {w : Value}
    (acyclic : Acyclic ⟨g, node⟩) (inside : g.Encloses enclosing node)
    (leads : walk? ⟨g, node⟩ p = some w) : enclosing.length + p.length ≤ g.containers.size := by
  induction p generalizing enclosing node with
  | nil => simpa using inside.length_le
  | cons s rest ih =>
    obtain ⟨part, found, onward⟩ := Option.bind_eq_some_iff.mp leads
    obtain ⟨n, rfl, member⟩ := child?_eq_some found
    have has : g.HasPart node n := ⟨s, member⟩
    obtain ⟨id, rfl, _⟩ := Graph.container_of_hasPart has
    have deeper := ih (acyclic.part has) (inside.step (acyclic.not_enclosing inside) has) onward
    simp only [List.length_cons] at deeper ⊢
    omega

/-- A path leads to a node of the same graph. -/
theorem graph_of_walk? {g : Graph} {node : Node} {p : Path} {w : Value}
    (leads : walk? ⟨g, node⟩ p = some w) : ∃ n, w = ⟨g, n⟩ := by
  induction p generalizing node with
  | nil => exact ⟨node, by simpa [walk?, eq_comm] using leads⟩
  | cons s rest ih =>
    obtain ⟨part, found, onward⟩ := Option.bind_eq_some_iff.mp leads
    obtain ⟨n, rfl, _⟩ := child?_eq_some found
    exact ih onward

/-- The listing from a node holds what the paths up to its depth lead to. -/
theorem mem_listing {g : Graph} (distinct : ∀ n, ((g.children n).map Prod.fst).Nodup)
    (depth : Nat) (path p : Path) (node n : Node) :
    (p, n) ∈ g.listing depth path node ↔
      ∃ q, p = path ++ q ∧ q.length ≤ depth ∧ walk? ⟨g, node⟩ q = some ⟨g, n⟩ := by
  induction depth generalizing path node with
  | zero =>
    simp only [Graph.listing, List.mem_singleton, Prod.mk.injEq, Nat.le_zero]
    constructor
    · rintro ⟨rfl, rfl⟩
      exact ⟨[], by simp, rfl, rfl⟩
    · rintro ⟨q, rfl, empty, here⟩
      cases List.length_eq_zero_iff.mp empty
      simpa [walk?, eq_comm] using here
  | succ depth ih =>
    simp only [Graph.listing, List.mem_cons, Prod.mk.injEq, List.mem_flatMap]
    constructor
    · rintro (⟨rfl, rfl⟩ | ⟨e, member, below⟩)
      · exact ⟨[], by simp, by simp, rfl⟩
      · obtain ⟨q, rfl, short, leads⟩ := (ih (path ++ [e.1]) e.2).mp below
        refine ⟨e.1 :: q, by simp, by simpa using short, ?_⟩
        rw [walk?, child?_of_mem (distinct node) member]
        exact leads
    · rintro ⟨q, rfl, short, leads⟩
      cases q with
      | nil => exact Or.inl (by simpa [walk?, eq_comm] using leads)
      | cons s q =>
        obtain ⟨part, found, onward⟩ := Option.bind_eq_some_iff.mp leads
        obtain ⟨m, rfl, member⟩ := child?_eq_some found
        refine Or.inr ⟨(s, m), member, (ih (path ++ [s]) m).mpr ⟨q, by simp, ?_, onward⟩⟩
        simpa using short

/-- The listing of a tree holds each node under its path and nothing else. -/
theorem mem_preorder_iff {v : Value} (tree : v.IsTree) (n : GivenNode) :
    n ∈ v.preorder ↔ v.walk? n.path = some n.value := by
  obtain ⟨path, value⟩ := n
  constructor
  · intro member
    obtain ⟨e, listed, same⟩ := List.mem_map.mp member
    obtain ⟨q, here, _, leads⟩ := (mem_listing tree.distinct _ _ _ _ _).mp listed
    cases same
    simpa [here] using leads
  · intro leads
    have short := tree.acyclic.length_le path (.nil v.graph v.node) leads
    obtain ⟨n, rfl⟩ := graph_of_walk? leads
    refine List.mem_map.mpr ⟨(path, n), ?_, rfl⟩
    refine (mem_listing tree.distinct _ _ _ _ _).mpr ⟨path, rfl, ?_, leads⟩
    simp only [List.length_nil, Graph.depthBound] at short ⊢
    omega

/-- The listing of a tree has each path once. -/
theorem preorder_nodup {v : Value} (tree : v.IsTree) :
    (v.preorder.map GivenNode.path).Nodup := by
  simpa [preorder, Function.comp_def] using Graph.listing_nodup tree.distinct _ _ _

end Value

/-- A document that holds shared parts, with a name. -/
def Document.sharing : Document :=
  { data := Value.sharedParts, source := some "api.yaml", text := none }

end DocLint
