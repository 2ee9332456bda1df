import DocLint.Text.Ranges

/-!
# White space

The characters that count as blank, and texts without the blanks at their ends.
-/
namespace DocLint.Text

/-- The code points of white space. -/
def blankRanges : List (Nat × Nat) :=
  [
    (9, 13), (28, 32), (133, 133), (160, 160), (5760, 5760), (8192, 8202), (8232, 8233),
    (8239, 8239), (8287, 8287), (12288, 12288)]

/-- White space: the separators of Unicode and the control characters that separate. -/
def isBlank (c : Char) : Bool :=
  inRanges blankRanges c

/-- A list of characters without its leading and trailing blanks. -/
def trimChars (cs : List Char) : List Char :=
  ((cs.dropWhile isBlank).reverse.dropWhile isBlank).reverse

/-- A text without its leading and trailing blanks. -/
def trim (s : String) : String :=
  String.ofList (trimChars s.toList)

end DocLint.Text
