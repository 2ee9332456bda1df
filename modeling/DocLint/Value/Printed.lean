import DocLint.Json.Basic
import DocLint.Value.Text

/-!
# Values inside messages

A message shows a text between double quotes and every other value as JSON, as far as JSON can carry
it: dates, times and bytes are carried as their texts, and keys that are numbers, truth values or null
as texts too. A value with another kind of key, or inside itself, is shown by its literal.
-/
namespace DocLint

namespace Scalar

/-- A scalar as JSON; what JSON has no form for is carried as a text. -/
def toJson : Scalar → Json
  | .null => .null
  | .bool b => .bool b
  | .int i => .int i
  | .float x => .real x
  | .str s => .str s
  | s => .str s.text

/-- The text under which JSON carries a key, if it can. -/
def jsonKey? : Scalar → Option String
  | .str s => some s
  | .null => some "null"
  | .bool b => some (if b then "true" else "false")
  | .int i => some (toString i)
  | .float x => some (Json.writeReal x)
  | _ => none

end Scalar

namespace Graph

/-- A node inside the given containers as JSON, unless a container is inside itself or a key cannot be
carried. -/
def toJsonWithin? (g : Graph) : Nat → List Nat → Node → Option Json
  | _, _, .scalar s => some s.toJson
  | 0, _, .container _ => none
  | fuel + 1, enclosing, .container id =>
    let inner := toJsonWithin? g fuel (id :: enclosing)
    if id ∈ enclosing then none
    else
      match g.containers[id]? with
      | none => some .null
      | some (.list items) => do return .arr (← items.mapM inner)
      | some (.tuple items) => do return .arr (← items.mapM inner)
      | some (.mapping entries) => do
        return .obj (← entries.mapM fun e => do return (← e.1.jsonKey?, ← inner e.2))
      | some (.set _) =>
        some (.str (g.literalWithin 1 [] (.container id)))

end Graph

namespace Value

/-- A value as JSON, if JSON can carry it. -/
def toJson? (v : Value) : Option Json :=
  v.graph.toJsonWithin? v.graph.depthBound [] v.node

/-- How a message shows a value. -/
def printed (v : Value) : String :=
  match v.scalar? with
  | some .missing => "undefined"
  | some (.str s) => "\"" ++ s ++ "\""
  | _ =>
    match v.toJson? with
    | some j => j.compact
    | none => v.literal

end Value
end DocLint
