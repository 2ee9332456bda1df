import DocLint.Number.Decimal
import DocLint.Text.Hex

/-!
# JSON texts

JSON values and their two written forms: on one line, and with every item on a line of its own,
indented by two spaces a level. Texts are written in ASCII, other characters as units of UTF-16. A
floating-point number that is not finite is written as `NaN` or `Infinity`, which is outside the
format.
-/
namespace DocLint

/-- A JSON value. The members of an object are in the order in which they are written. -/
inductive Json where
  | null
  | bool (b : Bool)
  | int (i : Int)
  | real (x : Binary64)
  | str (s : String)
  | arr (items : List Json)
  | obj (members : List (String × Json))
  deriving Inhabited

namespace Json

/-- The escape of one unit of UTF-16. -/
def unitEscape (n : Nat) : List Char :=
  '\\' :: 'u' :: Text.hexChars 4 n

/-- The spelling of one character inside a text. -/
def escapedChar (c : Char) : List Char :=
  let n := c.toNat
  if c == '"' || c == '\\' then ['\\', c]
  else if c == '\n' then ['\\', 'n']
  else if c == '\r' then ['\\', 'r']
  else if c == '\t' then ['\\', 't']
  else if c == '\x08' then ['\\', 'b']
  else if c == '\x0c' then ['\\', 'f']
  else if 0x20 ≤ n && n ≤ 0x7E then [c]
  else if n < 0x10000 then unitEscape n
  else unitEscape (0xD800 + (n - 0x10000) / 0x400) ++ unitEscape (0xDC00 + (n - 0x10000) % 0x400)

/-- A text between double quotes. -/
def writeString (s : String) : String :=
  String.ofList ('"' :: s.toList.flatMap escapedChar ++ ['"'])

/-- A floating-point number. -/
def writeReal : Binary64 → String
  | .nan _ => "NaN"
  | .infinite negative => if negative then "-Infinity" else "Infinity"
  | x => x.text

mutual

/-- The text on one line. -/
def compact : Json → String
  | .null => "null"
  | .bool b => if b then "true" else "false"
  | .int i => toString i
  | .real x => writeReal x
  | .str s => writeString s
  | .arr items => "[" ++ ", ".intercalate (compactItems items) ++ "]"
  | .obj members => "\x7b" ++ ", ".intercalate (compactMembers members) ++ "\x7d"

/-- The texts of the items of an array. -/
def compactItems : List Json → List String
  | [] => []
  | item :: rest => compact item :: compactItems rest

/-- The texts of the members of an object. -/
def compactMembers : List (String × Json) → List String
  | [] => []
  | (key, value) :: rest => (writeString key ++ ": " ++ compact value) :: compactMembers rest

end

/-- The start of a line at a level. -/
def newline (level : Nat) : String :=
  "\n" ++ String.ofList (List.replicate (2 * level) ' ')

/-- Items on lines of their own between brackets; without items, the brackets alone. -/
def block (level : Nat) (opening closing : String) (items : List String) : String :=
  if items.isEmpty then opening ++ closing
  else
    opening ++ newline (level + 1) ++ ("," ++ newline (level + 1)).intercalate items ++
      newline level ++ closing

mutual

/-- The text with every item on a line of its own, starting at the given level. -/
def indentedAt (level : Nat) : Json → String
  | .arr items => block level "[" "]" (indentedItems (level + 1) items)
  | .obj members => block level "\x7b" "\x7d" (indentedMembers (level + 1) members)
  | .null => "null"
  | .bool b => if b then "true" else "false"
  | .int i => toString i
  | .real x => writeReal x
  | .str s => writeString s

/-- The texts of the items of an array at a level. -/
def indentedItems (level : Nat) : List Json → List String
  | [] => []
  | item :: rest => indentedAt level item :: indentedItems level rest

/-- The texts of the members of an object at a level. -/
def indentedMembers (level : Nat) : List (String × Json) → List String
  | [] => []
  | (key, value) :: rest =>
    (writeString key ++ ": " ++ indentedAt level value) :: indentedMembers level rest

end

/-- The text with every item on a line of its own. -/
def indented (j : Json) : String :=
  indentedAt 0 j

end Json
end DocLint
