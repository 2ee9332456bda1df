import DocLint.Value.Scalar

/-!
# Values as rooted graphs

A document may name a container once and use it in several places, also inside itself. So containers
live in a graph, where they are told apart by their number, and a value is a node seen in its graph.
Definitions that walk down a value keep the containers they are inside of and never enter one twice,
which bounds the depth by the number of containers.
-/
namespace DocLint

/-- A place in a graph: a scalar, or the number of a container. -/
inductive Node where
  | scalar (s : Scalar)
  | container (id : Nat)
  deriving DecidableEq, Inhabited

/-- A value with parts. Keys and members are in the order in which they were first entered. -/
inductive Container where
  | list (items : List Node)
  | tuple (items : List Node)
  | mapping (entries : List (Scalar × Node))
  | set (members : List Scalar)
  deriving Inhabited

/-- The containers of a document, numbered from zero. -/
structure Graph where
  containers : Array Container
  deriving Inhabited

namespace Graph

/-- The graph without containers, which is enough for scalars. -/
def empty : Graph :=
  ⟨#[]⟩

/-- A number that no chain of nested containers exceeds before it meets one of its members again. -/
def depthBound (g : Graph) : Nat :=
  g.containers.size + 1

/-- The parts of a node with the segment that leads to each. Only mappings and lists have parts that
a path leads to. -/
def children (g : Graph) : Node → List (Scalar × Node)
  | .scalar _ => []
  | .container id =>
    match g.containers[id]? with
    | some (.mapping entries) => entries
    | some (.list items) => items.zipIdx.map fun (item, i) => (.int i, item)
    | _ => []

end Graph

/-- A node seen in its graph. -/
structure Value where
  graph : Graph
  node : Node
  deriving Inhabited

namespace Value

/-- A scalar as a value. -/
def ofScalar (s : Scalar) : Value :=
  ⟨.empty, .scalar s⟩

/-- The marker of a place without a value. -/
def missing : Value :=
  ofScalar .missing

/-- What a value is made of. -/
inductive View where
  | scalar (s : Scalar)
  | list (items : List Value)
  | tuple (items : List Value)
  | mapping (entries : List (Scalar × Value))
  | set (members : List Scalar)

/-- What a value is made of; a number that stands for no container counts as null. -/
def view (v : Value) : View :=
  match v.node with
  | .scalar s => .scalar s
  | .container id =>
    match v.graph.containers[id]? with
    | none => .scalar .null
    | some (.list items) => .list (items.map (⟨v.graph, ·⟩))
    | some (.tuple items) => .tuple (items.map (⟨v.graph, ·⟩))
    | some (.mapping entries) => .mapping (entries.map fun e => (e.1, ⟨v.graph, e.2⟩))
    | some (.set members) => .set members

/-- The parts of a value with the segment that leads to each. -/
def children (v : Value) : List (Scalar × Value) :=
  (v.graph.children v.node).map fun e => (e.1, ⟨v.graph, e.2⟩)

/-- The entries of a mapping. -/
def entries? (v : Value) : Option (List (Scalar × Value)) :=
  match v.view with
  | .mapping entries => some entries
  | _ => none

/-- The items of a list. -/
def items? (v : Value) : Option (List Value) :=
  match v.view with
  | .list items => some items
  | _ => none

theorem items?_eq_some_iff {v : Value} {items : List Value} : v.items? = some items ↔ v.view = .list items := by
  unfold items?
  cases v.view <;> simp

/-- The scalar that a value is. -/
def scalar? (v : Value) : Option Scalar :=
  match v.view with
  | .scalar s => some s
  | _ => none

theorem scalar?_eq_some_iff {v : Value} {s : Scalar} : v.scalar? = some s ↔ v.view = .scalar s := by
  unfold scalar?
  cases v.view <;> simp

/-- The text that a value is. -/
def string? (v : Value) : Option String :=
  match v.view with
  | .scalar (.str s) => some s
  | _ => none

theorem string?_eq_some_iff {v : Value} {s : String} : v.string? = some s ↔ v.view = .scalar (.str s) := by
  unfold string?
  split
  · next here => simp [here]
  · next other => exact iff_of_false nofun fun same => other s same

/-- Whether a value is the marker of a place without a value. -/
def isMissing (v : Value) : Bool :=
  v.scalar? == some .missing

/-- Whether a value is null. -/
def isNull (v : Value) : Bool :=
  v.scalar? == some .null

/-- The value of a mapping under a key. -/
def get? (v : Value) (key : Scalar) : Option Value := do
  let entries ← v.entries?
  let entry ← entries.find? fun e => e.1.same key
  return entry.2

/-- The value of a mapping under a textual key. -/
def field? (v : Value) (key : String) : Option Value :=
  v.get? (.str key)

/-- The value of a mapping under a textual key, null counting as absent. -/
def present? (v : Value) (key : String) : Option Value :=
  (v.field? key).filter (!·.isNull)

/-- A field is present if its mapping has a value for it that is not null. -/
theorem present?_eq_some_iff {v w : Value} {key : String} :
    v.present? key = some w ↔ v.field? key = some w ∧ w.isNull = false := by
  simp [present?, Option.filter_eq_some_iff]

/-- A container with the same parts, which is another one than the given. -/
def copied (v : Value) : Value :=
  match v.node with
  | .scalar _ => v
  | .container id =>
    match v.graph.containers[id]? with
    | some c => ⟨⟨v.graph.containers.push c⟩, .container v.graph.containers.size⟩
    | none => v

/-- Whether a value counts as true: a scalar by its own rule, a container when it is not empty. -/
def isTrue (v : Value) : Bool :=
  match v.view with
  | .scalar s => s.isTrue
  | .list items => !items.isEmpty
  | .tuple items => !items.isEmpty
  | .mapping entries => !entries.isEmpty
  | .set members => !members.isEmpty

end Value
end DocLint
