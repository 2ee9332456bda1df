/-!
# Markup in texts on a terminal

A text that is shown in a table may carry tags in brackets, which set styles and are not shown
themselves. Styles are not kept here, only what is shown. A tag that closes nothing is refused.
-/
namespace DocLint.Markup

/-- A tag: one that opens a style, one that closes the style of a name, or one that closes the last
style. -/
inductive Tag where
  | opening (name : String)
  | closing (name : String)
  | closingLast
  deriving DecidableEq

/-- A character that a tag starts with. -/
def startsTag (c : Char) : Bool :=
  c.isLower || c == '#' || c == '/' || c == '@'

/-- The text of the tag behind an opening bracket, and what follows its closing bracket. -/
def tagText? : List Char → Option (List Char × List Char)
  | [] => none
  | c :: rest =>
    if startsTag c then
      match rest.span fun d => d != ']' && d != '[' with
      | (body, ']' :: after) => some (c :: body, after)
      | _ => none
    else none

/-- Characters without the blanks at their ends. -/
def trimmed (cs : List Char) : String :=
  let isSpace (c : Char) : Bool := c == ' ' || c == '\t' || c == '\n'
  String.ofList ((cs.dropWhile isSpace).reverse.dropWhile isSpace).reverse

/-- The tag with a text. What follows an equals sign is a parameter. -/
def tagOf (text : List Char) : Tag :=
  match text.takeWhile (· != '=') with
  | '/' :: name => if (trimmed name).isEmpty then .closingLast else .closing (trimmed name).toLower
  | name => .opening (trimmed name).toLower

/-- The names of the open styles after a tag, the last one first. -/
def applyTag (styles : List String) : Tag → Option (List String)
  | .opening name => some (name :: styles)
  | .closing name => if styles.contains name then some (styles.erase name) else none
  | .closingLast => match styles with
    | _ :: rest => some rest
    | [] => none

/-- Whether a character rings, moves or feeds the terminal; such ones are not shown. -/
def isControl (c : Char) : Bool :=
  c == '\x07' || c == '\x08' || c == '\x0b' || c == '\x0c' || c == '\x0d'

/-- What is shown of a text, given the open styles. `slashes` counts the backslashes just before: an
odd number in front of a tag makes it a part of the text, and of each pair one is shown. The first
argument bounds the number of steps. -/
def shownFrom : Nat → List String → Nat → List Char → Option (List Char)
  | 0, _, _, _ => some []
  | _ + 1, _, slashes, [] => some (List.replicate slashes '\\')
  | fuel + 1, styles, slashes, c :: rest =>
    if c == '\\' then shownFrom fuel styles (slashes + 1) rest
    else
      match (if c == '[' then tagText? rest else none) with
      | some (text, after) => do
        if slashes % 2 = 1 then
          let shown ← shownFrom fuel styles 0 after
          return List.replicate (slashes / 2) '\\' ++ '[' :: text ++ ']' :: shown
        else
          let styles ← applyTag styles (tagOf text)
          let shown ← shownFrom fuel styles 0 after
          return List.replicate (slashes / 2) '\\' ++ shown
      | none => do
        let shown ← shownFrom fuel styles 0 rest
        let kept := if c == '[' then slashes - 1 else slashes
        return List.replicate kept '\\' ++ (if isControl c then shown else c :: shown)

/-- What is shown of a text; nothing when a tag closes what is not open. -/
def shown? (s : String) : Option (List Char) :=
  shownFrom (s.length + 1) [] 0 s.toList

end DocLint.Markup
