import DocLint.Diagnostic
import DocLint.Text.Quoted

/-!
# YAML nodes

A YAML document as a graph of nodes. A node that an alias refers to is entered once and used in
several places, also inside itself, so nodes are told apart by their number. Every node knows its tag
and the stretch of the text that it covers.
-/
namespace DocLint.Yaml

/-- What a node holds; parts are given by their numbers. -/
inductive Content where
  | scalar (text : String)
  | sequence (items : List Nat)
  | mapping (entries : List (Nat × Nat))
  deriving Inhabited

/-- A node with its full tag and its place in the text. -/
structure Item where
  tag : String
  content : Content
  range : Range
  deriving Inhabited

/-- The nodes of a document and its root; an empty text has no root. -/
structure NodeGraph where
  items : Array Item
  root : Option Nat
  deriving Inhabited

namespace NodeGraph

/-- A number that no chain of nested nodes exceeds before it meets one of its members again. -/
def depthBound (g : NodeGraph) : Nat :=
  g.items.size + 1

/-- What a node holds. -/
def content? (g : NodeGraph) (id : Nat) : Option Content :=
  (g.items[id]?).map (·.content)

/-- The text of the parts of a collection inside the given collections, for a collection that is
used as a key. A collection inside itself shows as dots. -/
def partsText (g : NodeGraph) : Nat → List Nat → Nat → String
  | 0, _, _ => "[...]"
  | fuel + 1, enclosing, id =>
    if id ∈ enclosing then "[...]"
    else
      let shown (part : Nat) : String :=
        match g.items[part]? with
        | none => ""
        | some item =>
          let (kind, value) := match item.content with
            | .scalar text => ("ScalarNode", Text.quoted text)
            | .sequence _ => ("SequenceNode", partsText g fuel (id :: enclosing) part)
            | .mapping _ => ("MappingNode", partsText g fuel (id :: enclosing) part)
          kind ++ "(tag=" ++ Text.quoted item.tag ++ ", value=" ++ value ++ ")"
      match g.content? id with
      | some (.sequence parts) => "[" ++ ", ".intercalate (parts.map shown) ++ "]"
      | some (.mapping entries) =>
        "[" ++ ", ".intercalate
          (entries.map fun e => "(" ++ shown e.1 ++ ", " ++ shown e.2 ++ ")") ++ "]"
      | _ => "[]"

/-- The text of a key: a scalar's own text, or the parts of a collection. -/
def keyText (g : NodeGraph) (id : Nat) : String :=
  match g.content? id with
  | some (.scalar text) => text
  | _ => g.partsText g.depthBound [] id

/-- The parts of a node with the text of the segment that leads to each. -/
def children (g : NodeGraph) (id : Nat) : List (String × Nat) :=
  match g.content? id with
  | some (.sequence parts) => parts.zipIdx.map fun (part, i) => (toString i, part)
  | some (.mapping entries) => entries.map fun e => (g.keyText e.1, e.2)
  | _ => []

end NodeGraph
end DocLint.Yaml
