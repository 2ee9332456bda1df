import DocLint.Value.Graph

/-!
# Paths

A path is the list of segments that lead from the root of a document to one of its values: the key of
a mapping or the position in a list at each step.
-/
namespace DocLint

/-- One step of a path: a key, or a position as an integer. -/
abbrev Segment := Scalar

/-- The steps from the root of a document to a value. -/
abbrev Path := List Segment

namespace Path

/-- The texts of the segments. -/
def texts (p : Path) : List String :=
  p.map Scalar.text

/-- Whether two paths have the same segments, numerically equal ones counting as one. -/
def same (p q : Path) : Bool :=
  p.isEqv q Scalar.same

end Path

namespace Value

/-- The part of a value that one segment leads to. -/
def child? (v : Value) (s : Segment) : Option Value :=
  (v.children.find? fun e => e.1 == s).map (·.2)

/-- The value at a path. -/
def walk? (v : Value) : Path → Option Value
  | [] => some v
  | s :: rest => (v.child? s).bind fun w => w.walk? rest

/-- A walk along a path and then another is one walk along both. -/
theorem walk?_append (v : Value) (p q : Path) :
    v.walk? (p ++ q) = (v.walk? p).bind fun w => w.walk? q := by
  induction p generalizing v with
  | nil => rfl
  | cons s rest ih =>
    simp only [List.cons_append, walk?]
    cases v.child? s with
    | none => rfl
    | some w => simpa using ih w

end Value
end DocLint
