import DocLint.Text.Ranges

/-!
# Digits

Decimal digits of all scripts and their values, and the wider class of characters that stand for a
digit, such as superscripts, which no number is read from.
-/
namespace DocLint.Text

/-- The code points of the digit zero of each script; the nine others follow it. -/
def zeroDigits : List Nat :=
  [
    48, 1632, 1776, 1984, 2406, 2534, 2662, 2790, 2918, 3046, 3174, 3302, 3430, 3558, 3664, 3792,
    3872, 4160, 4240, 6112, 6160, 6470, 6608, 6784, 6800, 6992, 7088, 7232, 7248, 42528, 43216,
    43264, 43472, 43504, 43600, 44016, 65296, 66720, 68912, 69734, 69872, 69942, 70096, 70384,
    70736, 70864, 71248, 71360, 71472, 71904, 72016, 72784, 73040, 73120, 92768, 92864, 93008,
    120782, 120792, 120802, 120812, 120822, 123200, 123632, 125264, 130032]

/-- The code points that stand for a digit without being a decimal digit. -/
def specialDigitRanges : List (Nat × Nat) :=
  [
    (178, 179), (185, 185), (4969, 4977), (6618, 6618), (8304, 8304), (8308, 8313), (8320, 8329),
    (9312, 9320), (9332, 9340), (9352, 9360), (9450, 9450), (9461, 9469), (9471, 9471),
    (10102, 10110), (10112, 10120), (10122, 10130), (68160, 68163), (69216, 69224), (69714, 69722),
    (127232, 127242)]

/-- The value of a decimal digit of any script. -/
def decimalValue? (c : Char) : Option Nat :=
  (zeroDigits.find? fun z => z ≤ c.toNat && c.toNat ≤ z + 9).map (c.toNat - ·)

/-- A decimal digit of any script. -/
def isDecimal (c : Char) : Bool :=
  (decimalValue? c).isSome

/-- A character that stands for a digit, decimal or not. -/
def isDigitLike (c : Char) : Bool :=
  isDecimal c || inRanges specialDigitRanges c

/-- The number that a list of decimal digits writes, or nothing when one is no decimal digit. -/
def decimalNat? (cs : List Char) : Option Nat :=
  cs.foldl (fun n c => do return 10 * (← n) + (← decimalValue? c)) (some 0)

/-- One of the ten digits of ASCII. -/
def isAsciiDigit (c : Char) : Bool :=
  '0' ≤ c && c ≤ '9'

end DocLint.Text
