import DocLint.Calendar
import DocLint.Number.Decimal
import DocLint.Text.Quoted

/-!
# Scalars

The values without parts that a document can hold. They are also the keys of mappings and, with the
positions of lists, the segments of paths. Numbers are the same when they are numerically equal,
whatever their kind, and truth values count as the integers 0 and 1.
-/
namespace DocLint

/-- A value without parts. `missing` marks a place where a document has no value. -/
inductive Scalar where
  | null
  | bool (b : Bool)
  | int (i : Int)
  | float (x : Binary64)
  | str (s : String)
  | date (d : Date)
  | datetime (t : DateTime)
  | bytes (bs : List UInt8)
  | missing
  deriving DecidableEq, Inhabited

namespace Scalar

/-- The numeric reading of a scalar: an integer or a floating-point number. -/
def number? : Scalar → Option (Int ⊕ Binary64)
  | .bool b => some (.inl (if b then 1 else 0))
  | .int i => some (.inl i)
  | .float x => some (.inr x)
  | _ => none

/-- The order of two numeric readings; a NaN has none. -/
def compareNumbers? : Int ⊕ Binary64 → Int ⊕ Binary64 → Option Ordering
  | .inl a, .inl b => some (compare a b)
  | .inl a, .inr y => (y.compareInt? a).map Ordering.swap
  | .inr x, .inl b => x.compareInt? b
  | .inr x, .inr y => x.compare? y

/-- Whether two scalars count as one: one key of a mapping, one entry of a list of allowed values. A
NaN is the same as itself only. -/
def same (a b : Scalar) : Bool :=
  a == b ||
    match a, b with
    | .datetime s, .datetime t => s.same t
    | _, _ =>
      match a.number?, b.number? with
      | some m, some n => compareNumbers? m n == some .eq
      | _, _ => false

/-- Every scalar counts as one with itself. -/
theorem same_refl (a : Scalar) : a.same a = true := by
  simp [same]

/-- Whether one list of characters comes before another by code points. -/
def charsBefore : List Char → List Char → Bool
  | [], [] => false
  | [], _ :: _ => true
  | _ :: _, [] => false
  | a :: as, b :: bs => a.toNat < b.toNat || (a == b && charsBefore as bs)

/-- Whether one sequence of bytes comes before another. -/
def bytesBefore : List UInt8 → List UInt8 → Bool
  | [], [] => false
  | [], _ :: _ => true
  | _ :: _, [] => false
  | a :: as, b :: bs => a < b || (a == b && bytesBefore as bs)

/-- Whether one scalar comes before another; nothing when their kinds have no common order. -/
def before? (a b : Scalar) : Option Bool :=
  match a, b with
  | .str s, .str t => some (charsBefore s.toList t.toList)
  | .bytes s, .bytes t => some (bytesBefore s t)
  | .date s, .date t => some (s.before t)
  | .datetime s, .datetime t => s.before? t
  | _, _ =>
    match a.number?, b.number? with
    | some m, some n => some (compareNumbers? m n == some .lt)
    | _, _ => none

/-- The text of a scalar inside the text of a container. -/
def literal : Scalar → String
  | .null => "None"
  | .bool b => if b then "True" else "False"
  | .int i => toString i
  | .float x => x.text
  | .str s => Text.quoted s
  | .date d => d.literal
  | .datetime t => t.literal
  | .bytes bs => Text.quotedBytes bs
  | .missing => "MISSING"

/-- The text of a scalar on its own. -/
def text : Scalar → String
  | .str s => s
  | .date d => d.text
  | .datetime t => t.text
  | s => s.literal

/-- Whether a scalar counts as true: all but nothing, false, zero and what is empty. -/
def isTrue : Scalar → Bool
  | .null => false
  | .bool b => b
  | .int i => i != 0
  | .float x => !x.isZero
  | .str s => !s.isEmpty
  | .date _ => true
  | .datetime _ => true
  | .bytes bs => !bs.isEmpty
  | .missing => false

end Scalar
end DocLint
