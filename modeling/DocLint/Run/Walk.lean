import DocLint.Rule.Basic

/-!
# The shared walk

One walk of a tree serves all precompiled rules: every node is met once, in depth-first pre-order, and
each rule that selects its path is told. The walk goes no deeper than the expressions can reach. A
container inside itself is met but not entered again.
-/
namespace DocLint

/-- A node of a tree with its path. -/
structure GivenNode where
  path : Path
  value : Value

/-- The root of a tree as a segment, which some selections use for the path of the root. -/
def rootMark : Segment :=
  .str "$"

/-- The path of a node in its document; the mark of the root alone stands for the empty path. -/
def GivenNode.documentPath (n : GivenNode) : Path :=
  if n.path = [rootMark] then [] else n.path

namespace Walk

/-- The greater of two depths, where nothing is without bound. -/
def deeper : Option Nat → Option Nat → Option Nat
  | some a, some b => some (max a b)
  | _, _ => none

/-- The length of the longest path that a rule can select. -/
def depthLimit (rules : List Rule) : Option Nat :=
  (rules.flatMap Rule.expressions).foldr (fun e limit => deeper e.maxDepth limit) (some 0)

/-- Whether a path is as long as a limit allows. -/
def atLimit (limit : Option Nat) (path : Path) : Bool :=
  limit.any (· ≤ path.length)

/-- A node and what is below it, inside the given containers, as far as a limit allows. The first
argument bounds the depth. -/
def nodesWithin (g : Graph) (limit : Option Nat) :
    Nat → List Nat → Path → Node → List (Path × Node)
  | 0, _, path, node => [(path, node)]
  | fuel + 1, enclosing, path, node =>
    (path, node) ::
      match node with
      | .scalar _ => []
      | .container id =>
        if atLimit limit path || id ∈ enclosing then []
        else
          (g.children node).flatMap fun e =>
            nodesWithin g limit fuel (id :: enclosing) (path ++ [e.1]) e.2

/-- The nodes of a tree as far as a limit allows, in pre-order. -/
def nodes (tree : Value) (limit : Option Nat) : List GivenNode :=
  (nodesWithin tree.graph limit (tree.graph.depthBound + 1) [] [] tree.node).map fun e =>
    ⟨e.1, ⟨tree.graph, e.2⟩⟩

/-- Who is told of which nodes: for each node in turn, every rule that selects its path. -/
def notices (rules : List Rule) (nodes : List GivenNode) : List (Rule × GivenNode) :=
  nodes.flatMap fun n => (rules.filter (·.matches n.path)).map fun r => (r, n)

end Walk
end DocLint
