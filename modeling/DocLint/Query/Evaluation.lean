import DocLint.Pattern.Matching
import DocLint.Pattern.Reader
import DocLint.Query.Basic
import DocLint.Query.Reader
import DocLint.Value.Compare

/-!
# Answering path queries

A step leads from a place to others, which keep the way that led to them. A query is answered step by
step, so that the order of the answers is that of the places they come from.
-/
namespace DocLint
namespace Query

/-- A place of a tree: its root and the steps from there, the last one first. A computed value is the
root of a tree of its own. -/
structure Place where
  root : Value
  computed : Option Computed
  trail : List (Segment × Value)

namespace Place

/-- The root of a tree. -/
def ofRoot (tree : Value) : Place :=
  ⟨tree, none, []⟩

/-- The value at a place. -/
def value (p : Place) : Value :=
  match p.trail with
  | [] => p.root
  | step :: _ => step.2

/-- The path from the root to a place. -/
def path (p : Place) : Path :=
  (p.trail.map (·.1)).reverse

/-- The place one step below. -/
def below (p : Place) (segment : Segment) (v : Value) : Place :=
  { p with trail := (segment, v) :: p.trail }

/-- The places of all parts. -/
def children (p : Place) : List Place :=
  p.value.children.map fun e => p.below e.1 e.2

/-- A place and everything below it, in pre-order, inside the given containers. A container inside
itself has no end. The first argument bounds the depth. -/
def withDescendants : Nat → List Nat → Place → Except QueryError (List Place)
  | 0, _, _ => .error .endless
  | fuel + 1, enclosing, p =>
    match p.value.node with
    | .scalar _ => .ok [p]
    | .container id =>
      if id ∈ enclosing then .error .endless
      else do
        let lists ← p.children.mapM (withDescendants fuel (id :: enclosing))
        return p :: lists.flatten

/-- The item at a position, negative ones counted from the end. -/
def item? (items : List Value) (position : Int) : Option Value :=
  let i := if position < 0 then position + items.length else position
  if i < 0 then none else items[i.toNat]?

/-- The places of the items at positions. -/
def atPositions (p : Place) (positions : List Int) : List Place :=
  match p.value.items? with
  | none => []
  | some items =>
    positions.filterMap fun i => (item? items i).map fun v => p.below (.int i) v

/-- The places of the values under keys. -/
def underKeys (p : Place) (keys : List String) : List Place :=
  match p.value.entries? with
  | none => []
  | some entries =>
    keys.filterMap fun key =>
      (entries.find? fun e => e.1 == .str key).map fun e => p.below e.1 e.2

/-- A bound of a slice of a list of a size: counted from the end when negative, and no further out
than the ends. -/
def clampedBound (size least most : Int) (bound : Int) : Int :=
  let i := if bound < 0 then bound + size else bound
  max least (min most i)

/-- The positions from one up to another in equal steps, no more than a number of them. -/
def positionsFrom (stop stride : Int) : Nat → Int → List Nat
  | 0, _ => []
  | count + 1, i =>
    if (0 < stride && i < stop) || (stride < 0 && stop < i) then
      i.toNat :: positionsFrom stop stride count (i + stride)
    else []

/-- The positions that a slice takes of a list of a size. Steps of zero take none. -/
def slicePositions (size : Nat) (start stop stride : Option Int) : List Nat :=
  let stride := stride.getD 1
  let n : Int := size
  if stride = 0 then []
  else if 0 < stride then
    let first := (start.map (clampedBound n 0 n)).getD 0
    let last := (stop.map (clampedBound n 0 n)).getD n
    positionsFrom last stride size first
  else
    let first := (start.map (clampedBound n (-1) (n - 1))).getD (n - 1)
    let last := (stop.map (clampedBound n (-1) (n - 1))).getD (-1)
    positionsFrom last stride size first

/-- The places of the items that a slice takes. -/
def sliced (p : Place) (start stop stride : Option Int) : List Place :=
  match p.value.items? with
  | none => []
  | some items =>
    (slicePositions items.length start stop stride).filterMap fun (i : Nat) =>
      items[i]?.map fun v => p.below (.int i) v

/-- The container that a place is in. -/
def parent? (p : Place) : Except QueryError Place :=
  match p.trail with
  | [] => .error .noParent
  | _ :: trail => .ok { p with trail }

/-- The number of the parts of a value or of the characters of a text. -/
def size? (v : Value) : Option Nat :=
  match v.view with
  | .list items => some items.length
  | .tuple items => some items.length
  | .mapping entries => some entries.length
  | .set members => some members.length
  | .scalar (.str s) => some s.length
  | .scalar (.bytes bs) => some bs.length
  | .scalar _ => none

/-- A list of scalars as a value. -/
def listOf (scalars : List Scalar) : Value :=
  ⟨⟨#[.list (scalars.map .scalar)]⟩, .container 0⟩

/-- The value that is computed from a place, if there is one. -/
def compute? (p : Place) : Computed → Option Value
  | .length => (size? p.value).map fun n => Value.ofScalar (.int n)
  | .keys => p.value.entries?.map fun entries => listOf (entries.map (·.1))
  | .path => some (Value.ofScalar (.str (".".intercalate p.path.texts)))

end Place

/-- Whether two values can be equal or unequal at all: kinds that differ are unequal, where the two
kinds of numbers are one. -/
def equalAs (v w : Value) : Bool :=
  match v.scalar?, w.scalar? with
  | some (.bool a), some (.bool b) => a == b
  | some (.bool _), some _ => false
  | some _, some (.bool _) => false
  | _, _ => v.same w

/-- The order of two numbers or two texts. -/
def lessThan? (v w : Value) : Option Bool :=
  match v.scalar?, w.scalar? with
  | some (.bool _), _ => none
  | _, some (.bool _) => none
  | some (.str s), some (.str t) => some (Scalar.charsBefore s.toList t.toList)
  | some a, some b =>
    match a.number?, b.number? with
    | some _, some _ => a.before? b
    | _, _ => none
  | _, _ => none

/-- Whether two values compare as asked. -/
def Comparison.holds (c : Comparison) (v w : Value) : Except QueryError Bool :=
  match c with
  | .equal => .ok (equalAs v w)
  | .unequal => .ok (!equalAs v w)
  | .less => .ok (lessThan? v w == some true)
  | .greater => .ok (lessThan? w v == some true)
  | .atMost => .ok ((lessThan? v w).isSome && (lessThan? v w == some true || equalAs v w))
  | .atLeast => .ok ((lessThan? w v).isSome && (lessThan? w v == some true || equalAs v w))
  | .containsPattern =>
    match v.string?, w.string? with
    | some text, some written =>
      match Pattern.ofText? .standard written with
      | .ok p => .ok (p.occursIn text)
      | .error e => .error (.pattern e)
    | _, _ => .ok false

/-- Whether some pair of values compares as asked. Without a value on either side only being unequal
holds. -/
def Comparison.holdsAny (c : Comparison) (vs ws : List Value) : Except QueryError Bool :=
  if vs.isEmpty || ws.isEmpty then .ok (c == .unequal)
  else do
    let results ← (vs.flatMap fun v => ws.map fun w => (v, w)).mapM fun e => c.holds e.1 e.2
    return results.any id

mutual

/-- The places that a step leads to. -/
def Step.from (p : Place) : Step → Except QueryError (List Place)
  | .root => .ok [.ofRoot p.root]
  | .this => .ok [p]
  | .parent => do return [← p.parent?]
  | .names keys => .ok (p.underKeys keys)
  | .any => .ok p.children
  | .items positions => .ok (p.atPositions positions)
  | .slice start stop stride => .ok (p.sliced start stop stride)
  | .filter c => p.children.filterM fun child => c.holdsAt child
  | .descend => p.withDescendants (p.value.graph.depthBound + 1) []
  | .computed c => .ok ((p.compute? c).map fun v => ⟨v, some c, []⟩).toList

/-- The places that steps lead to. -/
def followSteps (places : List Place) : List Step → Except QueryError (List Place)
  | [] => .ok places
  | step :: rest => do
    let lists ← places.mapM fun p => step.from p
    followSteps lists.flatten rest

/-- Whether a condition holds at a place. -/
def Condition.holdsAt (p : Place) : Condition → Except QueryError Bool
  | .found steps => do return !(← followSteps [p] steps).isEmpty
  | .compare c left right => do
    c.holdsAny (← left.valuesAt p) (← right.valuesAt p)
  | .both a b => do if ← a.holdsAt p then b.holdsAt p else return false
  | .either a b => do if ← a.holdsAt p then return true else b.holdsAt p
  | .negated a => do return !(← a.holdsAt p)

/-- The values of a side of a comparison at a place. -/
def Operand.valuesAt (p : Place) : Operand → Except QueryError (List Value)
  | .literal s => .ok [Value.ofScalar s]
  | .query steps => do return (← followSteps [p] steps).map Place.value

end

/-- The name of the operator that computes a value, as errors show it. -/
def Computed.shown : Computed → String
  | .length => "Len"
  | .keys => "Keys"
  | .path => "Path"

/-- The places as a selection, up to the first that stands nowhere in the tree. -/
def selectionOf : List Place → Selection
  | [] => .complete []
  | p :: rest =>
    match p.computed with
    | some c => .failed (.query (.notAPlace c.shown))
    | none =>
      let selection := selectionOf rest
      { selection with found := (p.path, p.value) :: selection.found }

end Query

/-- The path query that rules use unless they are given another. -/
def PathQuery.standard : PathQuery := fun expression tree =>
  match Query.parse? expression with
  | none => .failed (.query .malformed)
  | some steps =>
    match Query.followSteps [.ofRoot tree] steps with
    | .error e => .failed (.query e)
    | .ok places => Query.selectionOf places

end DocLint
