import DocLint.Text.Hex

/-!
# UTF-8

Reading bytes as UTF-8. Bytes that are no well-formed sequence are refused with the range of the bytes
that make a sequence impossible.
-/
namespace DocLint

/-- What is wrong with a sequence of bytes. -/
inductive Utf8Fault where
  | invalidStart
  | invalidContinuation
  | unexpectedEnd
  deriving DecidableEq, Inhabited

/-- Bytes that are no UTF-8: the fault, the first byte, its position and the number of bytes that are
to blame. -/
structure Utf8Error where
  fault : Utf8Fault
  byte : UInt8
  position : Nat
  length : Nat
  deriving DecidableEq, Inhabited

/-- The words for a fault. -/
def Utf8Fault.message : Utf8Fault → String
  | .invalidStart => "invalid start byte"
  | .invalidContinuation => "invalid continuation byte"
  | .unexpectedEnd => "unexpected end of data"

/-- What is wrong with bytes. -/
def Utf8Error.message (e : Utf8Error) : String :=
  let blamed :=
    if e.length = 1 then
      s!"byte 0x{String.ofList (Text.hexChars 2 e.byte.toNat)} in position {e.position}"
    else s!"bytes in position {e.position}-{e.position + e.length - 1}"
  s!"'utf-8' codec can't decode {blamed}: {e.fault.message}"

namespace Utf8

/-- A byte that continues a sequence. -/
def isContinuation (b : UInt8) : Bool :=
  0x80 ≤ b.toNat && b.toNat < 0xC0

/-- The number of bytes that follow a first byte, with the least and the greatest second byte. -/
def shape? (first : UInt8) : Option (Nat × Nat × Nat) :=
  let n := first.toNat
  if n < 0x80 then some (0, 0x80, 0xBF)
  else if n < 0xC2 then none
  else if n < 0xE0 then some (1, 0x80, 0xBF)
  else if n = 0xE0 then some (2, 0xA0, 0xBF)
  else if n = 0xED then some (2, 0x80, 0x9F)
  else if n < 0xF0 then some (2, 0x80, 0xBF)
  else if n = 0xF0 then some (3, 0x90, 0xBF)
  else if n < 0xF4 then some (3, 0x80, 0xBF)
  else if n = 0xF4 then some (3, 0x80, 0x8F)
  else none

/-- The bits that a first byte carries. -/
def leadBits (first : UInt8) (following : Nat) : Nat :=
  match following with
  | 0 => first.toNat
  | 1 => first.toNat % 0x20
  | 2 => first.toNat % 0x10
  | _ => first.toNat % 0x08

/-- The bytes that continue a sequence: those that do, as far as a number of them. The bounds are for
the first of them. -/
def following (least most : Nat) : Nat → List UInt8 → List UInt8
  | n + 1, b :: rest =>
    if least ≤ b.toNat && b.toNat ≤ most then b :: following 0x80 0xBF n rest else []
  | _, _ => []

/-- The characters of bytes from a position on. The first argument bounds their number. -/
def decodeFrom : Nat → Nat → List UInt8 → Except Utf8Error (List Char)
  | 0, _, _ => .ok []
  | _ + 1, _, [] => .ok []
  | fuel + 1, position, first :: rest =>
    match shape? first with
    | none => .error ⟨.invalidStart, first, position, 1⟩
    | some (count, least, most) =>
      let taken := following least most count rest
      if taken.length = count then do
        let code := taken.foldl (fun n b => n * 0x40 + b.toNat % 0x40) (leadBits first count)
        let more ← decodeFrom fuel (position + count + 1) (rest.drop count)
        return Char.ofNat code :: more
      else if taken.length = rest.length then
        .error ⟨.unexpectedEnd, first, position, taken.length + 1⟩
      else .error ⟨.invalidContinuation, first, position, taken.length + 1⟩

/-- The characters of bytes. -/
def decode (bytes : List UInt8) : Except Utf8Error (List Char) :=
  decodeFrom bytes.length 0 bytes

/-- The error of bytes that are read piece by piece: positions in a sequence that has no end count
from its start, since all before it has been passed on. -/
def inPieces (e : Utf8Error) : Utf8Error :=
  if e.fault = .unexpectedEnd then { e with position := 0 } else e

end Utf8
end DocLint
