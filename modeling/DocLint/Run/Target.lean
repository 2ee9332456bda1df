import DocLint.Number.Integer
import DocLint.Query.Basic

/-!
# Targets of checks

What an action checks of a node: the node itself, each key of a mapping, what a path query relative to
the node selects, or what a dotted field leads to. A field that leads nowhere has the marker of a
missing value as its target.
-/
namespace DocLint

/-- The characters of a text between separators. -/
def splitChars (separator : Char) : List Char → List (List Char)
  | [] => [[]]
  | c :: rest =>
    if c == separator then [] :: splitChars separator rest
    else
      match splitChars separator rest with
      | part :: parts => (c :: part) :: parts
      | [] => [[c]]

namespace Target

/-- Whether a part is made of characters that stand for digits. -/
def isDigits (part : String) : Bool :=
  !part.toList.isEmpty && part.toList.all Text.isDigitLike

/-- The number that digits write. Digits that are not decimal are refused, and so are more decimal ones
than are read as an integer. -/
def readPosition (part : String) : Except Failure Nat :=
  let count := (part.toList.takeWhile Text.isDecimal).length
  if Number.decimalLimit < count then .error (.refused (Number.tooManyDigits count))
  else
    match Text.decimalNat? part.toList with
    | some position => .ok position
    | none => .error (.refused s!"invalid literal for int() with base 10: {Text.quoted part}")

/-- A step from a list to one of its items: a part of digits that is a position of the list. -/
def itemStep? (items : List Value) (part : String) :
    Except Failure (Option (Segment × Value)) :=
  if isDigits part then do
    let position ← readPosition part
    return items[position]?.map fun item => (.int position, item)
  else .ok none

/-- A step along one part of a dotted field: to the value under the part as a key of a mapping, or to
an item of a list. -/
def step? (v : Value) (part : String) : Except Failure (Option (Segment × Value)) :=
  match v.view with
  | .mapping _ => .ok ((v.field? part).map fun w => (.str part, w))
  | .list items => itemStep? items part
  | _ => .ok none

/-- The target that parts lead to from a value, with the segments on the way. From the first part
that leads nowhere on, the parts themselves are the segments. -/
def follow (v : Value) : List String → Except Failure (Path × Value)
  | [] => .ok ([], v)
  | part :: rest => do
    match ← step? v part with
    | some (segment, next) =>
      if next.isMissing then return (segment :: rest.map .str, next)
      let (path, target) ← follow next rest
      return (segment :: path, target)
    | none => return (.str part :: rest.map .str, Value.missing)

/-- The parts of a dotted field. -/
def fieldParts (field : String) : List String :=
  (splitChars '.' field.toList).map String.ofList

/-- The targets of an action for a node. -/
def ofField (query : PathQuery) (path : Path) (v : Value) :
    Option String → Except Failure (List (Path × Value))
  | none => .ok [(path, v)]
  | some field =>
    if field == "@key" then
      .ok ((v.entries?.getD []).map fun e => (path ++ [e.1], Value.ofScalar e.1))
    else if field.startsWith "$" then do
      let found ← (query field v).all
      if found.isEmpty then return [(path, Value.missing)]
      return found.map fun e => (path ++ e.1, e.2)
    else do
      let (below, target) ← follow v (fieldParts field)
      return [(path ++ below, target)]

end Target
end DocLint
