/-!
# Styling in texts

Control sequences that set colours and weights on a terminal. They make no sense anywhere else.
-/
namespace DocLint.Text

/-- A character that may stand between the opening and the end of a control sequence. -/
def isStyleParameter (c : Char) : Bool :=
  c.isDigit || c == ';' || c == '?'

/-- The length of the control sequence that a text starts with. -/
def styleLength? : List Char → Option Nat
  | '\x1b' :: '[' :: rest =>
    match (rest.dropWhile isStyleParameter).head? with
    | some c => if c.isAlpha then some ((rest.takeWhile isStyleParameter).length + 3) else none
    | none => none
  | _ => none

/-- Characters without control sequences, the first of them skipped by number. -/
def withoutStylesFrom : Nat → List Char → List Char
  | _, [] => []
  | skipped + 1, _ :: rest => withoutStylesFrom skipped rest
  | 0, c :: rest =>
    match styleLength? (c :: rest) with
    | some n => withoutStylesFrom (n - 1) rest
    | none => c :: withoutStylesFrom 0 rest

/-- A text without control sequences. -/
def withoutStyles (s : String) : String :=
  String.ofList (withoutStylesFrom 0 s.toList)

end DocLint.Text
