import DocLint.Check.Measure
import DocLint.Value.Printed

/-!
# Checks of alphabetical order

The items of a list, or the keys of a mapping, must be in order. The first break is reported.
-/
namespace DocLint.Check

/-- The problem at the first break of the order. -/
def orderProblem (items : List Value) (keyedBy : Option Value) (place : Nat → Path) : Outcome :=
  match comparedItems items keyedBy with
  | .error failure => .failed failure
  | .ok items =>
    match firstBreak? 0 items with
    | none => .fine
    | some (position, current, following) =>
      .answered (some
        [⟨s!"{current.printed} must be placed after {following.printed}", place position⟩])

/-- The items of a list or the keys of a mapping must be in order, by the values under the key that
the option `keyedBy` names where it is given. -/
def alphabetical : Check := fun v options _ =>
  match v.view with
  | .mapping entries =>
    orderProblem (entries.map fun e => Value.ofScalar e.1) (options.present? "keyedBy") fun _ => []
  | .list items => orderProblem items (options.present? "keyedBy") fun position => [.int position]
  | _ => .fine

end DocLint.Check
