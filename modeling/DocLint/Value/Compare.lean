import DocLint.Value.Graph

/-!
# Equality and order of values

Lists are compared item by item, mappings by their entries in any order, and a scalar by its own
rule. Lists are ordered by the first pair of items that differ; mappings have no order.
-/
namespace DocLint
namespace Graph

/-- Whether two nodes of two graphs are the same, looking no deeper than the bound. -/
def sameWithin (g h : Graph) : Nat → Node → Node → Bool
  | _, .scalar s, .scalar t => s.same t
  | fuel + 1, .container i, .container j =>
    match g.containers[i]?, h.containers[j]? with
    | some (.list a), some (.list b) => a.isEqv b (sameWithin g h fuel)
    | some (.tuple a), some (.tuple b) => a.isEqv b (sameWithin g h fuel)
    | some (.mapping a), some (.mapping b) =>
      a.length == b.length && a.all fun e =>
        match b.find? fun f => f.1.same e.1 with
        | some f => sameWithin g h fuel e.2 f.2
        | none => false
    | some (.set a), some (.set b) =>
      a.length == b.length && a.all fun s => b.any fun t => s.same t
    | _, _ => false
  | _, _, _ => false

/-- The first pair of items that differ; of lists without one, whether the second is longer. -/
def firstDifference (differ : Node → Node → Bool) : List Node → List Node → (Node × Node) ⊕ Bool
  | x :: xs, y :: ys => if differ x y then .inl (x, y) else firstDifference differ xs ys
  | [], _ :: _ => .inr true
  | _, [] => .inr false

/-- Whether one node comes before another, looking no deeper than the bound; nothing when their kinds
have no common order. -/
def beforeWithin (g h : Graph) : Nat → Node → Node → Option Bool
  | _, .scalar s, .scalar t => s.before? t
  | fuel + 1, .container i, .container j =>
    let items (a b : List Node) : Option Bool :=
      match firstDifference (fun x y => !sameWithin g h fuel x y) a b with
      | .inl (x, y) => beforeWithin g h fuel x y
      | .inr longer => some longer
    match g.containers[i]?, h.containers[j]? with
    | some (.list a), some (.list b) => items a b
    | some (.tuple a), some (.tuple b) => items a b
    | some (.set a), some (.set b) =>
      some (a.length < b.length && a.all fun s => b.any fun t => s.same t)
    | _, _ => none
  | _, _, _ => none

end Graph

namespace Value

/-- A depth that covers both values, as long as one of them does not contain itself. -/
def commonBound (v w : Value) : Nat :=
  v.graph.depthBound + w.graph.depthBound

/-- Whether two values are the same. -/
def same (v w : Value) : Bool :=
  Graph.sameWithin v.graph w.graph (commonBound v w) v.node w.node

/-- Whether one value comes before another; nothing when their kinds have no common order. -/
def before? (v w : Value) : Option Bool :=
  Graph.beforeWithin v.graph w.graph (commonBound v w) v.node w.node

end Value
end DocLint
