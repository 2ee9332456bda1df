import DocLint.Diagnostic

/-!
# Reading a text by characters

A cursor holds the rest of a text and the place where it starts. The end of the text reads as a NUL,
which no text contains.
-/
namespace DocLint.Yaml

/-- The rest of a text, the number of characters before it and their lines and columns. -/
structure Cursor where
  rest : List Char
  index : Nat
  line : Nat
  column : Nat
  deriving Inhabited

/-- What the end of a text reads as. -/
def endOfText : Char := '\x00'

/-- A character that ends a line. -/
def isBreak (c : Char) : Bool :=
  c == '\n' || c == '\r' || c == '\u0085' || c == '\u2028' || c == '\u2029'

/-- The end of a line or of the text. -/
def isBreakOrEnd (c : Char) : Bool :=
  c == endOfText || isBreak c

/-- A space, or the end of a line or of the text. -/
def isSpaceOrEnd (c : Char) : Bool :=
  c == ' ' || isBreakOrEnd c

/-- A space, a tab, or the end of a line or of the text. -/
def isGapOrEnd (c : Char) : Bool :=
  c == '\t' || isSpaceOrEnd c

/-- A character of an anchor, a handle or the name of a directive. -/
def isNameChar (c : Char) : Bool :=
  c.isAlphanum || c == '-' || c == '_'

/-- A character that a text may contain. -/
def isAllowed (c : Char) : Bool :=
  let n := c.toNat
  n == 0x09 || n == 0x0A || n == 0x0D || (0x20 ≤ n && n ≤ 0x7E) || n == 0x85 ||
    (0xA0 ≤ n && n ≤ 0xFFFD) || 0x10000 ≤ n

namespace Cursor

/-- The start of a text. -/
def ofText (s : String) : Cursor :=
  ⟨s.toList, 0, 0, 0⟩

/-- The character some places ahead. -/
def peek (c : Cursor) (ahead : Nat) : Char :=
  (c.rest.drop ahead).headD endOfText

/-- The next character. -/
def current (c : Cursor) : Char :=
  c.rest.headD endOfText

/-- The place of the cursor. -/
def position (c : Cursor) : Position :=
  ⟨c.line, c.column⟩

/-- The cursor behind the next character. A byte order mark has no width. -/
def next (c : Cursor) : Cursor :=
  match c.rest with
  | [] => c
  | ch :: rest =>
    if isBreak ch && !(ch == '\r' && rest.head? == some '\n') then
      ⟨rest, c.index + 1, c.line + 1, 0⟩
    else if ch == '\uFEFF' then ⟨rest, c.index + 1, c.line, c.column⟩
    else ⟨rest, c.index + 1, c.line, c.column + 1⟩

/-- The cursor behind some characters. -/
def skip (c : Cursor) : Nat → Cursor
  | 0 => c
  | n + 1 => c.next.skip n

/-- The characters from the cursor on that satisfy a property. -/
def takeWhile (c : Cursor) (p : Char → Bool) : List Char :=
  c.rest.takeWhile p

/-- The cursor behind the characters that satisfy a property. -/
def skipWhile (c : Cursor) (p : Char → Bool) : Cursor :=
  c.skip (c.takeWhile p).length

/-- The cursor behind spaces. -/
def skipSpaces (c : Cursor) : Cursor :=
  c.skipWhile (· == ' ')

/-- The cursor behind the spaces up to a column. -/
def skipIndent (c : Cursor) (column : Nat) : Cursor :=
  c.skip (min (c.takeWhile (· == ' ')).length (column - c.column))

/-- The text of a line end and the cursor behind it; without a line end, no text. -/
def lineBreak (c : Cursor) : List Char × Cursor :=
  let ch := c.current
  if ch == '\r' && c.peek 1 == '\n' then (['\n'], c.skip 2)
  else if ch == '\r' || ch == '\n' || ch == '\u0085' then (['\n'], c.next)
  else if ch == '\u2028' || ch == '\u2029' then ([ch], c.next)
  else ([], c)

/-- Whether the cursor is at a line of three dashes or three dots. -/
def atDocumentMark (c : Cursor) : Bool :=
  match c.rest with
  | '-' :: '-' :: '-' :: _ => isGapOrEnd (c.peek 3)
  | '.' :: '.' :: '.' :: _ => isGapOrEnd (c.peek 3)
  | _ => false

end Cursor
end DocLint.Yaml
