import DocLint.Number.Binary64
import DocLint.Text.Blank
import DocLint.Text.Digit

/-!
# Decimal texts of floating-point numbers

A number is written with the fewest significant digits that read back as it, the nearest such text
where several have that length. Its digits are placed by position from `0.0001` up to below `10 ^ 16`
and with an exponent of at least two digits otherwise. Reading rounds to the nearest number.
-/
namespace DocLint.Binary64

/-- The position `p` of the decimal point with `10 ^ (p - 1) ≤ n / d < 10 ^ p`, for positive `n` and
`d`. -/
def pointPosition (n d : Nat) : Int :=
  if d ≤ n then Number.digitCount (n / d)
  else 1 - (Number.digitCount ((d + n - 1) / n - 1) : Int)

/-- Whether the decimal `c * 10 ^ q` lies within the numbers that round to the one with significand
`m` and exponent `e`; the ends belong to them when the significand is even. -/
def readsBack (m : Nat) (e : Int) (c : Nat) (q : Int) : Bool :=
  let below := if m = Nat.pow 2 52 && leastExponent < e then 1 else 2
  let (unit, scale) := ratio 1 (e - 2)
  let (tens, parts) := if 0 ≤ q then (Nat.pow 10 q.toNat, 1) else (1, Nat.pow 10 (-q).toNat)
  let decimal := c * tens * scale
  let low := (4 * m - below) * unit * parts
  let high := (4 * m + 2) * unit * parts
  if m % 2 = 0 then low ≤ decimal && decimal ≤ high else low < decimal && decimal < high

/-- The decimal of the grid `10 ^ q` that reads back as a number and is nearest to it. -/
def onGrid? (m : Nat) (e q : Int) (n d : Nat) : Option Nat :=
  let (n, d) := if 0 ≤ q then (n, d * Nat.pow 10 q.toNat) else (n * Nat.pow 10 (-q).toNat, d)
  let floor := n / d
  let nearest := Number.roundDiv n d
  let other := if nearest = floor then floor + 1 else floor
  if readsBack m e nearest q then some nearest
  else if readsBack m e other q then some other
  else none

/-- The shortest digits of a positive number and the position of their decimal point: the number is
`0.d₁d₂… * 10 ^ position`. -/
def shortest (m : Nat) (e : Int) : List Char × Int :=
  let (n, d) := ratio m e
  let p := pointPosition n d
  let found := (List.range 17).findSome? fun k =>
    (onGrid? m e (p - (k + 1 : Nat)) n d).map fun c => (c, p - (k + 1 : Nat))
  let (c, q) := found.getD (n / d, 0)
  let digits := Nat.toDigits 10 c
  let kept := (digits.reverse.dropWhile (· == '0')).reverse
  (kept, q + digits.length)

/-- Digits with the decimal point at a position, and a digit on either side of it. -/
def positional (digits : List Char) (point : Int) : List Char :=
  if point ≤ 0 then '0' :: '.' :: (List.replicate (-point).toNat '0' ++ digits)
  else
    let whole := digits.take point.toNat
    let fraction := digits.drop point.toNat
    whole ++ List.replicate (point.toNat - whole.length) '0' ++
      '.' :: (if fraction.isEmpty then ['0'] else fraction)

/-- Digits with one before the point, and an exponent of ten. -/
def exponential (digits : List Char) (point : Int) : List Char :=
  let exponent := point - 1
  let size := exponent.natAbs
  let exponentDigits := if size < 10 then '0' :: Nat.toDigits 10 size else Nat.toDigits 10 size
  let mantissa := match digits with
    | [] => ['0']
    | [c] => [c]
    | c :: rest => c :: '.' :: rest
  mantissa ++ 'e' :: (if exponent < 0 then '-' else '+') :: exponentDigits

/-- The text of a number. -/
def text : Binary64 → String
  | .nan _ => "nan"
  | .infinite negative => if negative then "-inf" else "inf"
  | .finite negative m e =>
    let unsigned :=
      if m = 0 then ['0', '.', '0']
      else
        let (digits, point) := shortest m e
        if -4 < point && point ≤ 16 then positional digits point else exponential digits point
    String.ofList (if negative then '-' :: unsigned else unsigned)

/-- The text of a number with one decimal place. -/
def textOneDecimal : Binary64 → String
  | .nan _ => "nan"
  | .infinite negative => if negative then "-inf" else "inf"
  | .finite negative m e =>
    let (n, d) := ratio m e
    let tenths := Number.roundDiv (n * 10) d
    let unsigned := Nat.toDigits 10 (tenths / 10) ++ '.' :: Nat.toDigits 10 (tenths % 10)
    String.ofList (if negative then '-' :: unsigned else unsigned)

/-- The sign in front of a number, and the rest. -/
def takeSign : List Char → Bool × List Char
  | '-' :: rest => (true, rest)
  | '+' :: rest => (false, rest)
  | cs => (false, cs)

/-- The exponent of ten after the digits of a number: nothing, or the letter and an integer. -/
def readExponent? : List Char → Option Int
  | [] => some 0
  | c :: rest =>
    if c == 'e' || c == 'E' then
      let (negative, digits) := takeSign rest
      if digits.isEmpty then none
      else (Text.decimalNat? digits).map fun n => if negative then -(n : Int) else n
    else none

/-- The number that a decimal text writes, blanks around it aside. A NaN that is read gets the given
origin. -/
def ofText? (origin : Nat) (s : String) : Option Binary64 :=
  let (negative, body) := takeSign (Text.trimChars s.toList)
  let word := String.ofList (body.map Char.toLower)
  if word == "inf" || word == "infinity" then some (.infinite negative)
  else if word == "nan" then some (.nan origin)
  else
    let whole := body.takeWhile Text.isDecimal
    let rest := body.dropWhile Text.isDecimal
    let (fraction, rest) := match rest with
      | '.' :: rest => (rest.takeWhile Text.isDecimal, rest.dropWhile Text.isDecimal)
      | rest => ([], rest)
    let digits := whole ++ fraction
    if digits.isEmpty then none
    else do
      let c ← Text.decimalNat? digits
      let e ← readExponent? rest
      return ofDecimal negative c (e - fraction.length)

end DocLint.Binary64
