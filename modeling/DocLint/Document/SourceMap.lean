import DocLint.Path.Basic
import DocLint.Yaml.Node.Reader

/-!
# Source maps

Where the nodes of a text are. Every way from the root to a node is recorded under the texts of its
segments, a collection inside itself being recorded but not entered again. A place that is recorded
twice has the last range. A path without a record has the range of the closest node around it.
-/
namespace DocLint

/-- The ranges of the nodes of a text in the order in which they are met. -/
structure SourceMap where
  recorded : List (List String × Range)
  deriving Inhabited

namespace SourceMap

/-- The ranges of a node at a path and of all nodes below it, inside the given collections. -/
def collect (g : Yaml.NodeGraph) :
    Nat → List Nat → List String → Nat → List (List String × Range)
  | 0, _, _, _ => []
  | fuel + 1, enclosing, path, id =>
    match g.items[id]? with
    | none => []
    | some item =>
      (path, item.range) ::
        if id ∈ enclosing then []
        else
          (g.children id).flatMap fun (segment, child) =>
            collect g fuel (id :: enclosing) (path ++ [segment]) child

/-- The source map of a node graph. -/
def ofNodes (g : Yaml.NodeGraph) : SourceMap :=
  match g.root with
  | none => ⟨[]⟩
  | some root => ⟨collect g g.depthBound [] [] root⟩

/-- The source map of a text. -/
def ofText? (text : String) : Except YamlError SourceMap := do
  return ofNodes (← Yaml.NodeGraph.ofText? text)

/-- The range recorded for a place, the last one when there are several. -/
def find? (m : SourceMap) (path : List String) : Option Range :=
  (m.recorded.reverse.find? fun e => e.1 == path).map (·.2)

/-- The places in the order in which they were first recorded, each with its range. -/
def entries (m : SourceMap) : List (List String × Range) :=
  m.recorded.foldl (fun seen e =>
    if seen.any fun s => s.1 == e.1 then
      seen.map fun s => if s.1 == e.1 then e else s
    else seen ++ [e]) []

/-- The range of the node at a path, or of the closest recorded node around it. -/
def rangeAt (m : SourceMap) (path : Path) : Range :=
  let texts := path.texts
  let around := (List.range (texts.length + 1)).reverse.findSome? fun k => m.find? (texts.take k)
  around.getD Range.empty

end SourceMap
end DocLint
