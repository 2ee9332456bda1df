import DocLint.Proofs.Document.Ranges
import DocLint.Proofs.Path.Keys
import DocLint.Proofs.Walk.Reach

/-!
# Places of nodes

A node graph is walked twice: for the ranges of its nodes, by texts, and as data for the rules, by keys
and positions. Both go around cycles on their own. In data that has the same parts, where what is shared
stays shared (`NodeGraph.textual`), they come to the same places in the same order
(`SourceMap.ofNodes_walk`): each listing is an image of one listing of the nodes (`NodeGraph.visits`).
-/
namespace DocLint
open Yaml

namespace Yaml.NodeGraph

/-- The parts of a node with the segment that leads to each: the position, or the text of the key. -/
def segments (g : NodeGraph) (id : Nat) : List (Segment × Nat) :=
  match g.content? id with
  | some (.sequence parts) => parts.zipIdx.map fun (part, i) => (.int i, part)
  | some (.mapping entries) => entries.map fun e => (.str (g.keyText e.1), e.2)
  | _ => []

/-- A node as a node of data: a scalar as its text, a collection as the container with its number. -/
def textNode (g : NodeGraph) (id : Nat) : Node :=
  match g.content? id with
  | some (.scalar text) => .scalar (.str text)
  | _ => .container id

/-- What a node holds as a container. Scalars are none, so their numbers stand for empty ones that nothing
leads to. -/
def textContainer (g : NodeGraph) : Content → Container
  | .scalar _ => .list []
  | .sequence parts => .list (parts.map g.textNode)
  | .mapping entries => .mapping (entries.map fun e => (.str (g.keyText e.1), g.textNode e.2))

/-- A node graph as data: mappings with the texts of their keys, lists and texts. A node that is used in
several places is one container in all of them. -/
def textual (g : NodeGraph) : Graph :=
  ⟨g.items.map fun item => g.textContainer item.content⟩

/-- The node that a text leads to. -/
def child? (g : NodeGraph) (id : Nat) (text : String) : Option Nat :=
  ((g.children id).find? fun e => e.1 == text).map (·.2)

/-- The node that the texts of a path lead to. -/
def walk? (g : NodeGraph) (id : Nat) : List String → Option Nat
  | [] => some id
  | text :: rest => (g.child? id text).bind fun part => g.walk? part rest

/-- A graph whose parts are all nodes of it, and in which no two keys of a mapping have the same text. For
a scalar that is the text it is written with. -/
structure IsSpelled (g : NodeGraph) : Prop where
  closed : ∀ id, ∀ e ∈ g.children id, e.2 < g.items.size
  apart : ∀ id entries, g.content? id = some (.mapping entries) →
    (entries.map fun e => g.keyText e.1).Nodup

/-- The nodes from a node down with their paths, inside the given collections, in the order in which both
walks come to them. -/
def visits (g : NodeGraph) : Nat → List Nat → Path → Nat → List (Path × Nat)
  | 0, _, path, id => [(path, id)]
  | fuel + 1, enclosing, path, id =>
    (path, id) ::
      if id ∈ enclosing then []
      else (g.segments id).flatMap fun e => visits g fuel (id :: enclosing) (path ++ [e.1]) e.2

/-- Where a node is; what is no node is nowhere. -/
def rangeOf (g : NodeGraph) (id : Nat) : Range :=
  (g.items[id]?.map (·.range)).getD Range.empty

variable {g : NodeGraph}

theorem rangeOf_of_item {id : Nat} {item : Item} (found : g.items[id]? = some item) :
    g.rangeOf id = item.range := by
  rw [rangeOf, found]
  rfl

/-- The names of the parts are the texts of their segments. -/
theorem children_eq (g : NodeGraph) (id : Nat) :
    g.children id = (g.segments id).map fun e => (e.1.text, e.2) := by
  unfold children segments
  cases g.content? id with
  | none => rfl
  | some held =>
    cases held with
    | scalar text => rfl
    | sequence parts =>
      simp only [List.map_map]
      rfl
    | mapping entries =>
      simp only [List.map_map]
      rfl

/-- As data a node has the same parts under the same segments. -/
theorem children_container (g : NodeGraph) (id : Nat) :
    g.textual.children (.container id) = (g.segments id).map fun e => (e.1, g.textNode e.2) := by
  unfold segments content?
  cases found : g.items[id]? with
  | none => simp [found, Graph.children, textual]
  | some item =>
    cases held : item.content <;>
      simp [found, held, Graph.children, textual, textContainer, List.zipIdx_map]

theorem children_textNode (g : NodeGraph) (id : Nat) :
    g.textual.children (g.textNode id) = (g.segments id).map fun e => (e.1, g.textNode e.2) := by
  unfold textNode
  split
  · next text held =>
    simp [Graph.children, segments, held]
  · exact children_container g id

/-- All that is inside one another is a node, so there is never more of it than there are nodes. -/
structure Surrounded (g : NodeGraph) (enclosing : List Nat) : Prop where
  nodup : enclosing.Nodup
  inRange : ∀ id ∈ enclosing, id < g.items.size

theorem Surrounded.nil (g : NodeGraph) : g.Surrounded [] :=
  ⟨List.nodup_nil, by simp⟩

theorem Surrounded.cons {enclosing : List Nat} {id : Nat} (around : g.Surrounded enclosing)
    (fresh : id ∉ enclosing) (here : id < g.items.size) : g.Surrounded (id :: enclosing) :=
  ⟨List.nodup_cons.mpr ⟨fresh, around.nodup⟩, List.forall_mem_cons.mpr ⟨here, around.inRange⟩⟩

theorem Surrounded.length_le {enclosing : List Nat} (around : g.Surrounded enclosing) :
    enclosing.length ≤ g.items.size := by
  have bounded : enclosing ⊆ List.range g.items.size := fun id member =>
    List.mem_range.mpr (around.inRange id member)
  simpa using around.nodup.length_le_of_subset bounded

/-- It is enough to look at the parts of the nodes. -/
theorem isSpelled_of_children (closed : ∀ id < g.items.size, ∀ e ∈ g.children id, e.2 < g.items.size)
    (apart : ∀ id < g.items.size, ((g.children id).map Prod.fst).Nodup) : g.IsSpelled := by
  have bound : ∀ {id held}, g.content? id = some held → id < g.items.size := by
    intro id held found
    obtain ⟨item, present, _⟩ := Option.map_eq_some_iff.mp found
    exact (Array.getElem?_eq_some_iff.mp present).1
  constructor
  · intro id e member
    cases held : g.content? id with
    | none => simp [children, held] at member
    | some content => exact closed id (bound held) e member
  · intro id entries held
    simpa [children, held, Function.comp_def] using apart id (bound held)

namespace IsSpelled

/-- Segments lead to nodes of the graph. -/
theorem lt_of_mem_segments (spelled : g.IsSpelled) {id : Nat} {e : Segment × Nat}
    (member : e ∈ g.segments id) : e.2 < g.items.size := by
  refine spelled.closed id (e.1.text, e.2) ?_
  rw [children_eq]
  exact List.mem_map_of_mem member

/-- No two parts of a node have the same name. -/
theorem children_nodup (spelled : g.IsSpelled) (id : Nat) : ((g.children id).map Prod.fst).Nodup := by
  unfold children
  split
  · next parts _ =>
    have names : (parts.zipIdx.map fun e => (toString e.2, e.1)).map Prod.fst =
        (List.range' 0 parts.length).map toString := by
      rw [← List.zipIdx_map_snd 0 parts, List.map_map, List.map_map]
      rfl
    rw [names]
    exact List.Nodup.map toString_injective List.nodup_range'
  · next entries held =>
    rw [List.map_map]
    exact spelled.apart id entries held
  · exact List.nodup_nil

/-- The name of a part leads to it. -/
theorem child?_of_mem (spelled : g.IsSpelled) {id : Nat} {e : Segment × Nat}
    (member : e ∈ g.segments id) : g.child? id e.1.text = some e.2 := by
  have named : (e.1.text, e.2) ∈ g.children id := by
    rw [children_eq]
    exact List.mem_map_of_mem member
  rw [child?, (find?_key_eq_some (spelled.children_nodup id)).mpr ⟨named, rfl⟩]
  rfl

/-- In the data of the graph, segments with the same text lead to the same part. -/
theorem hasTexts (spelled : g.IsSpelled) : g.textual.HasTexts := by
  refine Graph.forall_children (fun parts => (parts.map fun e : Scalar × Node => e.1.text).Nodup)
    List.nodup_nil fun id _ => ?_
  have names := spelled.children_nodup id
  rw [children_eq, List.map_map] at names
  rw [children_container, List.map_map]
  exact names

/-- No two places in the data of the graph have the same texts. -/
theorem nodes_texts_nodup (spelled : g.IsSpelled) (node : Node) (limit : Option Nat) :
    ((Walk.nodes ⟨g.textual, node⟩ limit).map fun n => n.path.texts).Nodup := by
  have distinct : ∀ n, ((g.textual.children n).map Prod.fst).Nodup := fun n =>
    List.Nodup.of_map Scalar.text (by simpa [Function.comp_def] using spelled.hasTexts n)
  have once : ((Walk.nodes ⟨g.textual, node⟩ limit).map GivenNode.path).Nodup :=
    Walk.nodes_nodup distinct limit
  have texts : (((Walk.nodes ⟨g.textual, node⟩ limit).map GivenNode.path).map Path.texts).Nodup := by
    refine once.map_on fun p first q second same => ?_
    obtain ⟨n, visited, rfl⟩ := List.mem_map.mp first
    obtain ⟨m, visited', rfl⟩ := List.mem_map.mp second
    exact Value.path_eq_of_texts spelled.hasTexts ((Walk.mem_nodes_iff distinct limit n).mp visited).1
      ((Walk.mem_nodes_iff distinct limit m).mp visited').1 same
  rwa [List.map_map] at texts

/-- Each node listed is where the texts of its path lead from the node that the listing starts at. -/
theorem walk?_of_mem_visits (spelled : g.IsSpelled) {fuel : Nat} {enclosing : List Nat} {path : Path}
    {id : Nat} (here : id < g.items.size) {e : Path × Nat}
    (member : e ∈ g.visits fuel enclosing path id) :
    ∃ q : Path, e.1 = path ++ q ∧ g.walk? id q.texts = some e.2 ∧ e.2 < g.items.size := by
  induction fuel generalizing enclosing path id with
  | zero =>
    cases List.mem_singleton.mp member
    exact ⟨[], by simp, rfl, here⟩
  | succ fuel ih =>
    rcases List.mem_cons.mp member with rfl | below
    · exact ⟨[], by simp, rfl, here⟩
    · split at below
      · cases below
      · obtain ⟨part, own, deeper⟩ := List.mem_flatMap.mp below
        obtain ⟨q, goesOn, leads, bound⟩ := ih (spelled.lt_of_mem_segments own) deeper
        refine ⟨part.1 :: q, by rw [goesOn, List.append_assoc]; rfl, ?_, bound⟩
        rw [Path.texts, List.map_cons, walk?, spelled.child?_of_mem own]
        exact leads

section
variable (spelled : g.IsSpelled) {fuel depth id : Nat} {enclosing : List Nat} {path : Path}
  (around : g.Surrounded enclosing) (here : id < g.items.size)
  (deep : g.items.size < depth + enclosing.length)
include spelled around here deep

/-- The ranges are collected along the listing. They are not cut off where there is room for all nodes. -/
theorem collect_eq_visits (enough : g.items.size < fuel + enclosing.length) :
    SourceMap.collect g fuel enclosing path.texts id =
      (g.visits depth enclosing path id).map fun e => (e.1.texts, g.rangeOf e.2) := by
  have bound := around.length_le
  induction depth generalizing fuel enclosing path id with
  | zero => omega
  | succ depth ih =>
    cases fuel with
    | zero => omega
    | succ fuel =>
      have present : g.items[id]? = some g.items[id] := Array.getElem?_eq_getElem here
      rw [SourceMap.collect, present, visits, List.map_cons, rangeOf_of_item present]
      dsimp only
      congr 1
      by_cases inside : id ∈ enclosing
      · simp [inside]
      · rw [if_neg inside, if_neg inside, children_eq, List.flatMap_map, List.map_flatMap]
        refine List.flatMap_congr fun e own => ?_
        have within := around.cons inside here
        have named : path.texts ++ [e.1.text] = (path ++ [e.1]).texts := by simp [Path.texts]
        dsimp only
        rw [named]
        refine ih within (spelled.lt_of_mem_segments own) ?_ ?_ within.length_le
        all_goals
          rw [List.length_cons]
          omega

/-- Rules are told along the listing when no depth limits their walk. -/
theorem nodesWithin_eq_visits (enough : g.items.size < fuel + enclosing.length) :
    Walk.nodesWithin g.textual none fuel enclosing path (g.textNode id) =
      (g.visits depth enclosing path id).map fun e => (e.1, g.textNode e.2) := by
  have bound := around.length_le
  induction depth generalizing fuel enclosing path id with
  | zero => omega
  | succ depth ih =>
    cases fuel with
    | zero => omega
    | succ fuel =>
      rw [visits, List.map_cons]
      cases kind : g.textNode id with
      | scalar s =>
        -- a scalar is listed without parts also where it is not said to be one
        have parts := children_textNode g id
        rw [kind, Graph.children] at parts
        have none : g.segments id = [] := List.map_eq_nil_iff.mp parts.symm
        rw [Walk.nodesWithin_scalar, none]
        simp
      | container n =>
        have same : n = id := by
          unfold textNode at kind
          split at kind <;> cases kind
          rfl
        subst same
        have parts := children_container g n
        rw [Walk.nodesWithin_container]
        congr 1
        by_cases inside : n ∈ enclosing
        · simp [inside]
        · simp only [Walk.atLimit, Option.any_none, inside, decide_false, Bool.or_self,
            Bool.false_eq_true, if_false, parts, List.flatMap_map, List.map_flatMap]
          refine List.flatMap_congr fun e own => ?_
          have within := around.cons inside here
          refine ih within (spelled.lt_of_mem_segments own) ?_ ?_ within.length_le
          all_goals
            rw [List.length_cons]
            omega

end
end IsSpelled
end Yaml.NodeGraph

namespace SourceMap

/-- In a map that has every place once, each record is what is found for its place. -/
theorem find?_of_mem {m : SourceMap} (once : (m.recorded.map Prod.fst).Nodup) {path : List String}
    {range : Range} (member : (path, range) ∈ m.recorded) : m.find? path = some range := by
  have once : (m.recorded.reverse.map Prod.fst).Nodup := by
    rw [List.map_reverse]
    exact List.nodup_reverse.mpr once
  rw [find?, (find?_key_eq_some once).mpr ⟨List.mem_reverse.mpr member, rfl⟩]
  rfl

/-- The ranges of a finite node graph and the walk of its data by rules without a depth limit agree on what
the nodes are, also with aliases and cycles: the ranges are collected to an end, at the places of the nodes
that the walk comes to and in the same order, each once; and the range at such a place is that of the node
which the texts of the path lead to. -/
theorem ofNodes_walk (g : NodeGraph) (root : Nat) (rooted : g.root = some root)
    (here : root < g.items.size) (spelled : g.IsSpelled) (b : Switchboard) (rules : List Rule)
    (served : rules ≠ []) (unlimited : Walk.depthLimit rules = none) :
    let ranges := SourceMap.ofNodes g
    let tree : Value := ⟨g.textual, g.textNode root⟩
    let met := Walk.nodes tree (Walk.depthLimit rules)
    (∀ fuel, g.depthBound ≤ fuel → collect g fuel [] [] root = ranges.recorded) ∧
    (b.traverse tree rules).board.told = b.told ++ Walk.notices rules met ∧
    (b.traverse tree rules).visited = met.length ∧
    ranges.recorded.map Prod.fst = met.map (fun n => n.path.texts) ∧
    (ranges.recorded.map Prod.fst).Nodup ∧
    (∀ path range, (path, range) ∈ ranges.recorded →
      ∃ id item, g.walk? root path = some id ∧ g.items[id]? = some item ∧ item.range = range) ∧
    ∀ n ∈ met, ∃ id item, g.walk? root n.path.texts = some id ∧ g.items[id]? = some item ∧
      n.value = ⟨g.textual, g.textNode id⟩ ∧ ranges.rangeAt n.path = item.range := by
  intro ranges tree met
  have collected : ∀ fuel, g.depthBound ≤ fuel → collect g fuel [] [] root =
      (g.visits g.depthBound [] [] root).map fun e => (e.1.texts, g.rangeOf e.2) := by
    intro fuel enough
    change collect g fuel [] (Path.texts []) root = _
    refine spelled.collect_eq_visits (.nil g) here ?_ ?_
    all_goals
      simp only [NodeGraph.depthBound, List.length_nil] at enough ⊢
      omega
  have recorded : ranges.recorded =
      (g.visits g.depthBound [] [] root).map fun e => (e.1.texts, g.rangeOf e.2) := by
    rw [← collected g.depthBound le_rfl]
    simp only [ranges, ofNodes, rooted]
  have listed : met = (g.visits g.depthBound [] [] root).map fun e =>
      ⟨e.1, g.textual, g.textNode e.2⟩ := by
    have walked : Walk.nodesWithin g.textual none (g.textual.depthBound + 1) [] [] (g.textNode root) =
        (g.visits g.depthBound [] [] root).map fun e => (e.1, g.textNode e.2) := by
      refine spelled.nodesWithin_eq_visits (.nil g) here ?_ ?_
      all_goals
        simp only [NodeGraph.depthBound, Graph.depthBound, NodeGraph.textual, Array.size_map,
          List.length_nil]
        omega
    simp only [met, unlimited, Walk.nodes, tree, walked, List.map_map, Function.comp_def]
  have places : ranges.recorded.map Prod.fst = met.map fun n => n.path.texts := by
    rw [recorded, listed, List.map_map, List.map_map]
    rfl
  have leads : ∀ e ∈ g.visits g.depthBound [] [] root,
      ∃ item, g.walk? root e.1.texts = some e.2 ∧ g.items[e.2]? = some item ∧
        g.rangeOf e.2 = item.range := by
    intro e member
    obtain ⟨q, whole, walk, bound⟩ := spelled.walk?_of_mem_visits here member
    have present := Array.getElem?_eq_getElem bound
    rw [List.nil_append] at whole
    exact ⟨_, whole ▸ walk, present, NodeGraph.rangeOf_of_item present⟩
  have once : (ranges.recorded.map Prod.fst).Nodup := by
    rw [places]
    exact spelled.nodes_texts_nodup _ _
  refine ⟨fun fuel enough => (collected fuel enough).trans recorded.symm, ?_, ?_, places, once, ?_, ?_⟩
  · rw [Switchboard.traverse_board, (b.deliver_effects _).2.1, Walk.notices_depthLimit]
  · simp only [Switchboard.traverse, List.isEmpty_eq_false_iff.mpr served, Bool.false_eq_true, if_false]
    rfl
  · intro path range member
    rw [recorded] at member
    obtain ⟨e, visited, same⟩ := List.mem_map.mp member
    cases same
    obtain ⟨item, walk, present, range⟩ := leads e visited
    exact ⟨e.2, item, walk, present, range.symm⟩
  · intro n member
    rw [listed] at member
    obtain ⟨e, visited, rfl⟩ := List.mem_map.mp member
    obtain ⟨item, walk, present, range⟩ := leads e visited
    refine ⟨e.2, item, walk, present, rfl, ?_⟩
    refine rangeAt_of_find? (find?_of_mem once ?_)
    rw [recorded, ← range]
    exact List.mem_map.mpr ⟨e, visited, rfl⟩

/-- A mapping with a list that holds a text, the mapping itself and the text once more, beside that text. -/
def knotted : NodeGraph :=
  ⟨#[⟨"tag:yaml.org,2002:map", .mapping [(1, 2), (3, 4)], ⟨⟨0, 0⟩, ⟨2, 0⟩⟩⟩,
      ⟨"tag:yaml.org,2002:str", .scalar "a", ⟨⟨0, 3⟩, ⟨0, 4⟩⟩⟩,
      ⟨"tag:yaml.org,2002:seq", .sequence [4, 0, 4], ⟨⟨0, 6⟩, ⟨0, 20⟩⟩⟩,
      ⟨"tag:yaml.org,2002:str", .scalar "b", ⟨⟨1, 0⟩, ⟨1, 1⟩⟩⟩,
      ⟨"tag:yaml.org,2002:str", .scalar "x", ⟨⟨0, 7⟩, ⟨0, 11⟩⟩⟩], some 0⟩

theorem ofNodes_walk_knotted :
    knotted.IsSpelled ∧ Walk.depthLimit Switchboard.shallowAndDeep = none ∧
    (ofNodes knotted).recorded.map Prod.fst =
      [[], ["a"], ["a", "0"], ["a", "1"], ["a", "2"], ["b"]] ∧
    (Walk.nodes ⟨knotted.textual, .container 0⟩ none).map (fun n => n.path.texts) =
      (ofNodes knotted).recorded.map Prod.fst ∧
    (Switchboard.empty.traverse ⟨knotted.textual, .container 0⟩
      Switchboard.shallowAndDeep).visited = 6 ∧
    (ofNodes knotted).rangeAt [.str "a", .int 2] = ⟨⟨0, 7⟩, ⟨0, 11⟩⟩ := by
  have spelled : knotted.IsSpelled :=
    NodeGraph.isSpelled_of_children (by decide +kernel) (by decide +kernel)
  have unlimited : Walk.depthLimit Switchboard.shallowAndDeep = none := rfl
  have paths : (ofNodes knotted).recorded.map Prod.fst =
      [[], ["a"], ["a", "0"], ["a", "1"], ["a", "2"], ["b"]] := by
    decide +kernel
  obtain ⟨_, _, counted, agree, _, _, placed⟩ := ofNodes_walk knotted 0 rfl (by decide) spelled
    Switchboard.empty Switchboard.shallowAndDeep (by simp [Switchboard.shallowAndDeep]) unlimited
  have size := congrArg List.length agree
  rw [List.length_map, List.length_map, ← counted, ← List.length_map Prod.fst, paths] at size
  have visited : [.str "a", .int 2] ∈ (Walk.nodes ⟨knotted.textual, .container 0⟩
      (Walk.depthLimit Switchboard.shallowAndDeep)).map GivenNode.path := by
    decide +kernel
  have leads : knotted.walk? 0 (Path.texts [.str "a", .int 2]) = some 4 := by decide +kernel
  obtain ⟨n, member, path⟩ := List.mem_map.mp visited
  obtain ⟨id, item, walk, present, _, range⟩ := placed n member
  rw [path] at walk range
  cases walk.symm.trans leads
  cases present
  exact ⟨spelled, unlimited, paths, agree.symm, size.symm, range⟩

end SourceMap
end DocLint
