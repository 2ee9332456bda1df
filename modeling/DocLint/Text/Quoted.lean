import DocLint.Text.Hex
import DocLint.Text.Printable

/-!
# Quoted texts

How a text or a sequence of bytes is shown inside the text of a larger value: between single quotes,
or between double quotes when it holds a single quote and no double quote, with a backslash before
the enclosing quote, before a backslash and in place of what cannot be printed.
-/
namespace DocLint.Text

/-- The quote that encloses a list of characters. -/
def enclosingQuote (cs : List Char) : Char :=
  if cs.contains '\'' && !cs.contains '"' then '"' else '\''

/-- The spelling of one character between the given quotes. -/
def quotedChar (quote c : Char) : List Char :=
  if c == quote || c == '\\' then ['\\', c]
  else if c == '\n' then ['\\', 'n']
  else if c == '\r' then ['\\', 'r']
  else if c == '\t' then ['\\', 't']
  else if isPrintable c then [c]
  else if c.toNat < 0x100 then '\\' :: 'x' :: hexChars 2 c.toNat
  else if c.toNat < 0x10000 then '\\' :: 'u' :: hexChars 4 c.toNat
  else '\\' :: 'U' :: hexChars 8 c.toNat

/-- A text between quotes. -/
def quoted (s : String) : String :=
  let cs := s.toList
  let quote := enclosingQuote cs
  String.ofList (quote :: cs.flatMap (quotedChar quote) ++ [quote])

/-- The spelling of one byte between the given quotes. -/
def quotedByte (quote : Char) (b : UInt8) : List Char :=
  if b.toNat < 0x7F then
    let c := Char.ofNat b.toNat
    if c.toNat < 0x20 then
      if c == '\n' || c == '\r' || c == '\t' then quotedChar quote c
      else '\\' :: 'x' :: hexChars 2 b.toNat
    else quotedChar quote c
  else '\\' :: 'x' :: hexChars 2 b.toNat

/-- A sequence of bytes between quotes, after the mark that tells it from a text. -/
def quotedBytes (bs : List UInt8) : String :=
  let quote := enclosingQuote (bs.map fun b => Char.ofNat b.toNat)
  String.ofList ('b' :: quote :: bs.flatMap (quotedByte quote) ++ [quote])

/-- Texts between quotes as the items of a list. -/
def quotedList (texts : List String) : String :=
  "[" ++ ", ".intercalate (texts.map quoted) ++ "]"

end DocLint.Text
