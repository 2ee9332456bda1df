import DocLint.Path.Basic

/-!
# JSON pointers

A path as the fragment of an address: the text of every segment after a slash, with `~` written as
`~0` and a slash as `~1`.
-/
namespace DocLint.Pointer

/-- The spelling of one character of a segment. -/
def escapeChar (c : Char) : List Char :=
  if c == '~' then ['~', '0'] else if c == '/' then ['~', '1'] else [c]

/-- The characters of a segment as a pointer spells them. -/
def escapeChars (cs : List Char) : List Char :=
  cs.flatMap escapeChar

/-- Characters with `~1` read as a slash. -/
def readSlashes : List Char → List Char
  | '~' :: '1' :: rest => '/' :: readSlashes rest
  | c :: rest => c :: readSlashes rest
  | [] => []

/-- Characters with `~0` read as `~`. -/
def readTildes : List Char → List Char
  | '~' :: '0' :: rest => '~' :: readTildes rest
  | c :: rest => c :: readTildes rest
  | [] => []

/-- The characters of a segment that a pointer spells: first the slashes are read, then the
tildes. -/
def unescapeChars (cs : List Char) : List Char :=
  readTildes (readSlashes cs)

/-- The segment as a pointer spells it. -/
def escape (segment : String) : String :=
  String.ofList (escapeChars segment.toList)

/-- The segment that a pointer spells. -/
def unescape (spelled : String) : String :=
  String.ofList (unescapeChars spelled.toList)

end DocLint.Pointer

namespace DocLint.Path

/-- The path as the fragment of an address. -/
def pointer (p : Path) : String :=
  "#" ++ String.join (p.map fun s => "/" ++ Pointer.escape s.text)

end DocLint.Path
