import DocLint.Text.Blank
import DocLint.Text.Digit

/-!
# Integers in a base

The integer that a text writes in a base up to sixteen: digits of any script, letters for the digits
from ten on, blanks around them, a sign and, for the bases two, eight and sixteen, a zero and the
letter of the base in front of the digits.
-/
namespace DocLint.Number

/-- The value of a digit in a base. -/
def digitValue? (base : Nat) (c : Char) : Option Nat :=
  let value := match Text.decimalValue? c with
    | some n => some n
    | none =>
      if 'a' ≤ c && c ≤ 'f' then some (c.toNat - 'a'.toNat + 10)
      else if 'A' ≤ c && c ≤ 'F' then some (c.toNat - 'A'.toNat + 10)
      else none
  value.filter (· < base)

/-- The letter that announces a base. -/
def baseLetter? : Nat → Option Char
  | 2 => some 'b'
  | 8 => some 'o'
  | 16 => some 'x'
  | _ => none

/-- Digits without the announcement of their base. -/
def withoutAnnouncement (base : Nat) : List Char → List Char
  | '0' :: letter :: rest =>
    if baseLetter? base == some letter.toLower then rest else '0' :: letter :: rest
  | cs => cs

/-- The number that digits write in a base; there must be at least one. -/
def digitsNat? (base : Nat) (cs : List Char) : Option Nat :=
  if cs.isEmpty then none
  else cs.foldl (fun n c => do return base * (← n) + (← digitValue? base c)) (some 0)

/-- Whether a text writes a negative integer, and the characters of its size. -/
def signAndSize (s : String) : Bool × List Char :=
  match Text.trimChars s.toList with
  | '-' :: rest => (true, rest)
  | '+' :: rest => (false, rest)
  | cs => (false, cs)

/-- The integer that a text writes in a base. -/
def readInteger? (base : Nat) (s : String) : Option Int :=
  let (negative, digits) := signAndSize s
  (digitsNat? base (withoutAnnouncement base digits)).map fun n =>
    if negative then -(n : Int) else n

/-- The greatest number of decimal digits that are read as an integer. -/
def decimalLimit : Nat := 4300

/-- What is wrong with an integer that would be written with more decimal digits than that. -/
def tooLongToWrite : String :=
  "Exceeds the limit (4300 digits) for integer string conversion; use sys.set_int_max_str_digits() to increase the limit"

/-- What is wrong with an integer of so many decimal digits. -/
def tooManyDigits (count : Nat) : String :=
  s!"Exceeds the limit (4300 digits) for integer string conversion: value has {count} digits; use sys.set_int_max_str_digits() to increase the limit"

/-- The number of decimal digits at the start of an integer, if they are too many to be read. -/
def beyondLimit? (s : String) : Option Nat :=
  let count := ((signAndSize s).2.takeWhile fun c => (digitValue? 10 c).isSome).length
  if decimalLimit < count then some count else none

end DocLint.Number
