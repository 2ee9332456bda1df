/-!
# Likeness of texts

How many characters two texts have in common, counted along their longest common runs, and from that
which of some names a mistyped name may have meant.
-/
namespace DocLint.Text

/-- The number of characters with which two texts start alike. -/
def commonStart : List Char → List Char → Nat
  | c :: cs, d :: ds => if c == d then commonStart cs ds + 1 else 0
  | _, _ => 0

/-- Where two texts have a run in common, and how long it is. -/
structure CommonRun where
  first : Nat
  second : Nat
  length : Nat

/-- The longest run that two texts have in common; of several, the one that comes first. -/
def longestRun (a b : List Char) : CommonRun :=
  (List.range a.length).foldl (fun best i =>
    (List.range b.length).foldl (fun best j =>
      let n := commonStart (a.drop i) (b.drop j)
      if n > best.length then ⟨i, j, n⟩ else best) best) ⟨0, 0, 0⟩

/-- The characters that two texts have in common in their longest run and, taken apart there, before
and behind it. The first argument bounds how often they are taken apart. -/
def commonFrom : Nat → List Char → List Char → Nat
  | 0, _, _ => 0
  | fuel + 1, a, b =>
    let run := longestRun a b
    if run.length = 0 then 0
    else
      run.length + commonFrom fuel (a.take run.first) (b.take run.second) +
        commonFrom fuel (a.drop (run.first + run.length)) (b.drop (run.second + run.length))

/-- The characters that two texts have in common. -/
def common (a b : List Char) : Nat :=
  commonFrom (a.length + 1) a b

/-- Whether at least three fifths of the characters of two texts are in common. -/
def isLike (a b : List Char) : Bool :=
  3 * (a.length + b.length) ≤ 10 * common a b

/-- The names among the given ones that a name is like. -/
def namesLike (name : String) (names : List String) : List String :=
  names.filter fun n => isLike n.toList name.toList

end DocLint.Text
