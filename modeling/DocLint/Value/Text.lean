import DocLint.Number.Integer
import DocLint.Value.Graph

/-!
# Texts of values

A scalar on its own is shown by its text; a container shows its parts by their literals between
brackets, and dots in place of a container inside itself. Integers with too many decimal digits have no
text.
-/
namespace DocLint

/-- Whether a scalar has a text. -/
def Scalar.isWritable : Scalar → Bool
  | .int i => i.natAbs < Nat.pow 10 Number.decimalLimit
  | _ => true

namespace Graph

/-- Whether a node inside the given containers shows only scalars that have a text. -/
def isWritableWithin (g : Graph) : Nat → List Nat → Node → Bool
  | _, _, .scalar s => s.isWritable
  | 0, _, .container _ => true
  | fuel + 1, enclosing, .container id =>
    let inner := isWritableWithin g fuel (id :: enclosing)
    if id ∈ enclosing then true
    else
      match g.containers[id]? with
      | none => true
      | some (.list items) => items.all inner
      | some (.tuple items) => items.all inner
      | some (.mapping entries) => entries.all fun e => e.1.isWritable && inner e.2
      | some (.set members) => members.all Scalar.isWritable

/-- The literal of a node inside the given containers. -/
def literalWithin (g : Graph) : Nat → List Nat → Node → String
  | _, _, .scalar s => s.literal
  | 0, _, .container _ => "..."
  | fuel + 1, enclosing, .container id =>
    let inner := literalWithin g fuel (id :: enclosing)
    match g.containers[id]? with
    | none => Scalar.null.literal
    | some (.list items) =>
      if id ∈ enclosing then "[...]" else "[" ++ ", ".intercalate (items.map inner) ++ "]"
    | some (.tuple items) =>
      if id ∈ enclosing then "(...)"
      else
        match items with
        | [item] => "(" ++ inner item ++ ",)"
        | items => "(" ++ ", ".intercalate (items.map inner) ++ ")"
    | some (.mapping entries) =>
      if id ∈ enclosing then "\x7b...\x7d"
      else
        "\x7b" ++ ", ".intercalate (entries.map fun e => e.1.literal ++ ": " ++ inner e.2) ++ "\x7d"
    | some (.set members) =>
      if members.isEmpty then "set()"
      else "\x7b" ++ ", ".intercalate (members.map Scalar.literal) ++ "\x7d"

end Graph

namespace Value

/-- Whether a value has a text. -/
def isWritable (v : Value) : Bool :=
  v.graph.isWritableWithin v.graph.depthBound [] v.node

/-- The text of a value inside the text of a container. -/
def literal (v : Value) : String :=
  v.graph.literalWithin v.graph.depthBound [] v.node

/-- The text of a value on its own. -/
def text (v : Value) : String :=
  match v.scalar? with
  | some s => s.text
  | none => v.literal

end Value
end DocLint
