/-!
# Lines

The lines of a text under every separator of Unicode, and texts with one spelling of the line end.
-/
namespace DocLint.Text

/-- A character that ends a line. A carriage return and a line feed together end one line. -/
def isLineEnd (c : Char) : Bool :=
  c == '\n' || c == '\r' || c == '\x0b' || c == '\x0c' || c == '\x1c' || c == '\x1d' ||
    c == '\x1e' || c == '\u0085' || c == '\u2028' || c == '\u2029'

/-- The lines of the characters that follow the ones already read of the current line. -/
def splitLinesFrom (current : List Char) : List Char → List (List Char)
  | [] => if current.isEmpty then [] else [current.reverse]
  | '\r' :: '\n' :: rest => current.reverse :: splitLinesFrom [] rest
  | c :: rest =>
    if isLineEnd c then current.reverse :: splitLinesFrom [] rest
    else splitLinesFrom (c :: current) rest

/-- The lines of a text without their ends; a final line end opens no further line. -/
def splitLines (s : String) : List (List Char) :=
  splitLinesFrom [] s.toList

/-- Characters with every line end among carriage return, line feed and both written as a line
feed. -/
def unifyLineEnds : List Char → List Char
  | [] => []
  | '\r' :: '\n' :: rest => '\n' :: unifyLineEnds rest
  | c :: rest => (if c == '\r' then '\n' else c) :: unifyLineEnds rest

/-- Characters without a line feed at their end. -/
def withoutFinalNewline (cs : List Char) : List Char :=
  if cs.getLast? == some '\n' then cs.dropLast else cs

end DocLint.Text
