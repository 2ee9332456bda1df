/-!
# Bytes written in base 64

Four characters stand for three bytes. Characters outside the alphabet are passed over, and padding
that completes a group of four ends the text.
-/
namespace DocLint.Text.Base64

/-- The value of a character of the alphabet. -/
def value? (c : Char) : Option Nat :=
  if 'A' ≤ c && c ≤ 'Z' then some (c.toNat - 'A'.toNat)
  else if 'a' ≤ c && c ≤ 'z' then some (c.toNat - 'a'.toNat + 26)
  else if '0' ≤ c && c ≤ '9' then some (c.toNat - '0'.toNat + 52)
  else if c == '+' then some 62
  else if c == '/' then some 63
  else none

/-- The bytes of the characters that follow some characters of a group: how many there are, the bits
that they left over, and the padding seen since. Nothing when the last group is incomplete. -/
def decodeFrom : Nat → Nat → Nat → List Char → Option (List UInt8)
  | 0, _, _, [] => some []
  | _, _, _, [] => none
  | place, left, pads, c :: rest =>
    if c == '=' then
      if 2 ≤ place then
        if 4 ≤ place + pads + 1 then some [] else decodeFrom place left (pads + 1) rest
      else decodeFrom place left pads rest
    else
      match value? c with
      | none => decodeFrom place left pads rest
      | some v =>
        match place with
        | 0 => decodeFrom 1 v 0 rest
        | 1 => (decodeFrom 2 (v % 16) 0 rest).map (UInt8.ofNat (left * 4 + v / 16) :: ·)
        | 2 => (decodeFrom 3 (v % 4) 0 rest).map (UInt8.ofNat (left * 16 + v / 4) :: ·)
        | _ => (decodeFrom 0 0 0 rest).map (UInt8.ofNat (left * 64 + v) :: ·)

/-- The bytes that a text writes. -/
def decode? (s : String) : Option (List UInt8) :=
  decodeFrom 0 0 0 s.toList

end DocLint.Text.Base64
