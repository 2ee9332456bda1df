import DocLint.Check.Basic
import DocLint.Value.Compare

/-!
# Checks of size and order

The size of a text, a list or a mapping or the magnitude of a number against bounds, and the order of
the items of a list or the keys of a mapping.
-/
namespace DocLint.Check

/-- What is measured of a value: the number itself, or the number of characters, items or entries. -/
def measure? (v : Value) : Option Scalar :=
  match v.view with
  | .scalar (.int i) => some (.int i)
  | .scalar (.float x) => some (.float x)
  | .scalar (.str s) => some (.int s.length)
  | .list items => some (.int items.length)
  | .mapping entries => some (.int entries.length)
  | _ => none

/-- The problem with a bound: `violated` tells whether the bound is exceeded, nothing when it cannot
be compared. -/
def boundProblem (bound : Option Value) (violated : Value → Option Bool)
    (complaint : String) : Except Failure (List Finding) :=
  match bound with
  | none => .ok []
  | some limit =>
    match violated limit with
    | none => .error .wrongKind
    | some false => .ok []
    | some true => .ok [⟨s!"{complaint} {limit.text}", []⟩]

/-- The measure of the value must lie between the options `min` and `max`. -/
def length : Check := fun v options c =>
  match measure? v with
  | none => .fine
  | some measured =>
    let size := Value.ofScalar measured
    let problems : Except Failure (List Finding) := do
      let short ← boundProblem (options.present? "min") size.before?
        (c.targetName ++ " must be longer than")
      let long ← boundProblem (options.present? "max") (·.before? size)
        (c.targetName ++ " must not be longer than")
      return short ++ long
    match problems with
    | .ok findings => .answered (some findings)
    | .error failure => .failed failure

/-- Whether a value comes before another in an alphabetical list: by their own order, or by their
texts when they have none. -/
def precedes (v w : Value) : Bool :=
  (v.before? w).getD (Scalar.charsBefore v.text.toList w.text.toList)

/-- The first position whose follower comes before it, with both items. -/
def firstBreak? : Nat → List Value → Option (Nat × Value × Value)
  | position, current :: following :: rest =>
    if precedes following current then some (position, current, following)
    else firstBreak? (position + 1) (following :: rest)
  | _, _ => none

/-- The items that are compared: those themselves, or what mappings among them hold under a key. A
key that is a container can be looked up in no mapping. -/
def comparedItems (items : List Value) (keyedBy : Option Value) : Except Failure (List Value) :=
  match keyedBy with
  | none => .ok items
  | some key =>
    items.mapM fun item =>
      match item.entries?, key.scalar? with
      | none, _ => .ok item
      | some _, some key => .ok ((item.get? key).getD (Value.ofScalar .null))
      | some _, none => .error .wrongKind

end DocLint.Check
