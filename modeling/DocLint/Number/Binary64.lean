import DocLint.Number.Rounding

/-!
# Binary floating-point numbers of 64 bits

A finite number is a sign, a significand below `2 ^ 53` and an exponent of two from `-1074` to `971`;
the significand is at least `2 ^ 52` unless the exponent is the least one. All arithmetic is exact
arithmetic on integers followed by one rounding to the nearest number, an exact half going to the
even significand.
-/
namespace DocLint

/-- A binary floating-point number of 64 bits. A NaN is equal to nothing but itself, so it carries a
number that tells it from others. -/
inductive Binary64 where
  | finite (negative : Bool) (significand : Nat) (exponent : Int)
  | infinite (negative : Bool)
  | nan (origin : Nat)
  deriving DecidableEq, Inhabited

namespace Binary64

/-- The exponent of the smallest numbers. -/
def leastExponent : Int := -1074

/-- The exponent of the largest numbers. -/
def greatestExponent : Int := 971

/-- The zero of a sign. -/
def zero (negative : Bool) : Binary64 :=
  .finite negative 0 leastExponent

/-- The exponent `k` with `2 ^ k ≤ n / d < 2 ^ (k + 1)`, for positive `n` and `d`. -/
def ratioLog2 (n d : Nat) : Int :=
  let k : Int := n.log2 - d.log2
  let reached := if 0 ≤ k then d * Nat.pow 2 k.toNat ≤ n else d ≤ n * Nat.pow 2 (-k).toNat
  if reached then k else k - 1

/-- The number nearest to `n / d`, with the given sign. -/
def ofRatio (negative : Bool) (n d : Nat) : Binary64 :=
  if n = 0 then zero negative
  else
    let e := max (ratioLog2 n d - 52) leastExponent
    let m := if 0 ≤ e then Number.roundDiv n (d * Nat.pow 2 e.toNat)
      else Number.roundDiv (n * Nat.pow 2 (-e).toNat) d
    let (m, e) := if m = Nat.pow 2 53 then (Nat.pow 2 52, e + 1) else (m, e)
    if greatestExponent < e then .infinite negative else .finite negative m e

/-- The number nearest to an integer. -/
def ofInt (i : Int) : Binary64 :=
  ofRatio (i < 0) i.natAbs 1

/-- The number nearest to `c * 10 ^ e`, with the given sign. Exponents far beyond the range are
answered without computing the power. -/
def ofDecimal (negative : Bool) (c : Nat) (e : Int) : Binary64 :=
  if c = 0 then zero negative
  else
    let magnitude : Int := Number.digitCount c + e
    if 400 < magnitude then .infinite negative
    else if magnitude < -400 then zero negative
    else if 0 ≤ e then ofRatio negative (c * Nat.pow 10 e.toNat) 1
    else ofRatio negative c (Nat.pow 10 (-e).toNat)

/-- The absolute value of a finite number as a quotient. -/
def ratio (m : Nat) (e : Int) : Nat × Nat :=
  if 0 ≤ e then (m * Nat.pow 2 e.toNat, 1) else (m, Nat.pow 2 (-e).toNat)

/-- The sign of a number; a NaN counts as positive. -/
def isNegative : Binary64 → Bool
  | .finite negative _ _ => negative
  | .infinite negative => negative
  | .nan _ => false

/-- Whether a number is a zero of either sign. -/
def isZero : Binary64 → Bool
  | .finite _ m _ => m == 0
  | _ => false

/-- Whether a number is finite and an integer. -/
def isInteger : Binary64 → Bool
  | .finite _ m e => 0 ≤ e || m % Nat.pow 2 (-e).toNat == 0
  | _ => false

/-- The number of the opposite sign. -/
def neg : Binary64 → Binary64
  | .finite negative m e => .finite (!negative) m e
  | .infinite negative => .infinite (!negative)
  | .nan origin => .nan origin

/-- A significand with its sign. -/
def signed (negative : Bool) (m : Nat) : Int :=
  if negative then -(m : Int) else m

/-- The order of `a * 2 ^ d` and `b * 2 ^ e`. -/
def compareScaled (a d b e : Int) : Ordering :=
  let least := min d e
  compare (a * Int.pow 2 (d - least).toNat) (b * Int.pow 2 (e - least).toNat)

/-- The order of two numbers; a NaN has none. -/
def compare? : Binary64 → Binary64 → Option Ordering
  | .nan _, _ => none
  | _, .nan _ => none
  | .infinite s, .infinite t => some (if s = t then .eq else if s then .lt else .gt)
  | .infinite s, .finite _ _ _ => some (if s then .lt else .gt)
  | .finite _ _ _, .infinite t => some (if t then .gt else .lt)
  | .finite s m e, .finite t n f => some (compareScaled (signed s m) e (signed t n) f)

/-- The exact order of a number and an integer. -/
def compareInt? : Binary64 → Int → Option Ordering
  | .nan _, _ => none
  | .infinite s, _ => some (if s then .lt else .gt)
  | .finite s m e, i => some (compareScaled (signed s m) e i 0)

/-- The rounded sum of two finite numbers; with another operand, that one. A sum that is zero is a
positive zero. -/
def add : Binary64 → Binary64 → Binary64
  | .finite s m e, .finite t n f =>
    let least := min e f
    let sum := signed s m * Int.pow 2 (e - least).toNat + signed t n * Int.pow 2 (f - least).toNat
    let (n, d) := ratio sum.natAbs least
    ofRatio (sum < 0) n d
  | .finite _ _ _, b => b
  | a, _ => a

/-- The natural number that is nearest to another among these numbers, unless it is beyond them. -/
def nearestNat? (n : Nat) : Option Nat :=
  match ofRatio false n 1 with
  | .finite _ m e =>
    let (n, d) := ratio m e
    some (n / d)
  | _ => none

/-- The rounded product of a number and a natural number. -/
def scale (a : Binary64) (k : Nat) : Binary64 :=
  match a with
  | .finite s m e =>
    let (n, d) := ratio (m * k) e
    ofRatio s n d
  | a => a

/-- The rounded quotient of a number and a positive natural number. -/
def divide (a : Binary64) (k : Nat) : Binary64 :=
  match a with
  | .finite s m e =>
    let (n, d) := ratio m e
    ofRatio s n (d * k)
  | a => a

end Binary64
end DocLint
