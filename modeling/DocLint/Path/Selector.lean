import DocLint.Path.Basic

/-!
# Selectors

A compiled expression is a list of selectors that is matched against whole paths. `CompiledPath.matches`
decides whether a path is selected; an expression without descent selects paths of one length only.
-/
namespace DocLint

/-- One step of a compiled expression. A `descend` stands in front of the selector that may land at
any depth. -/
inductive Selector where
  | key (name : String)
  | index (position : Nat)
  | any
  | descend
  deriving DecidableEq, Inhabited

namespace Selector

/-- Whether a selector accepts one segment. A key also accepts an integer spelled like it, so that a
key written without quotes is found under its number. -/
def accepts : Selector → Segment → Bool
  | .any, _ => true
  | .key name, .int i => toString i == name
  | .key name, .str s => s == name
  | .index position, .int i => i == position
  | _, _ => false

end Selector

/-- What is left of a path from each of its segments on. -/
def nonemptySuffixes : Path → List Path
  | [] => []
  | segment :: rest => (segment :: rest) :: nonemptySuffixes rest

/-- Whether selectors select a path. A descent lets the rest of the selectors start at any segment
that is left. -/
def selects : List Selector → Path → Bool
  | [], p => p.isEmpty
  | .descend :: rest, p => (nonemptySuffixes p).any fun q => selects rest q
  | _ :: _, [] => false
  | s :: rest, segment :: p => s.accepts segment && selects rest p

/-- An expression with the selectors that it stands for. -/
structure CompiledPath where
  expression : String
  selectors : List Selector
  deriving DecidableEq, Inhabited

namespace CompiledPath

/-- The length of the paths that an expression selects; with a descent there is no bound. -/
def maxDepth (c : CompiledPath) : Option Nat :=
  if c.selectors.any (· == .descend) then none else some c.selectors.length

/-- Whether an expression selects a path. -/
def «matches» (c : CompiledPath) (p : Path) : Bool :=
  match c.maxDepth with
  | some depth => p.length == depth && selects c.selectors p
  | none => selects c.selectors p

end CompiledPath
end DocLint
