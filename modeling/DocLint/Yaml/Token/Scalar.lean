import DocLint.Text.Hex
import DocLint.Yaml.Cursor
import DocLint.Yaml.Error

/-!
# Scalars of a YAML text

The three ways to write a scalar: in quotes, as an indented block after `|` or `>`, and plain. Each
reader answers the characters of the scalar and the cursor behind it. Loops are bounded by the number
of characters that are left.
-/
namespace DocLint.Yaml.Scalars

/-! ## Quoted scalars -/

/-- The escapes of one character. -/
def simpleEscapes : List (Char × Char) :=
  [('0', '\x00'), ('a', '\x07'), ('b', '\x08'), ('t', '\x09'), ('\t', '\x09'), ('n', '\x0a'),
    ('v', '\x0b'), ('f', '\x0c'), ('r', '\x0d'), ('e', '\x1b'), (' ', ' '), ('"', '"'),
    ('\\', '\\'), ('/', '/'), ('N', '\u0085'), ('_', '\u00a0'), ('L', '\u2028'), ('P', '\u2029')]

/-- The escapes that name a character by its number, with the count of digits. -/
def numericEscapes : List (Char × Nat) :=
  [('x', 2), ('u', 4), ('U', 8)]

/-- The character with a number. Half of a pair of UTF-16 units is no character of its own and, without
its other half, reads as the replacement character. -/
def numbered (n : Nat) : Except YamlError Char :=
  if 0x80000000 ≤ n then .error .beyondCharacters
  else if 0x110000 ≤ n then .error .beyondUnicode
  else if 0xD800 ≤ n && n < 0xE000 then .ok '\uFFFD'
  else .ok (Char.ofNat n)

/-- The character of a pair of UTF-16 units. -/
def paired? (first second : Nat) : Option Char :=
  if 0xD800 ≤ first && first < 0xDC00 && 0xDC00 ≤ second && second < 0xE000 then
    some (Char.ofNat (0x10000 + (first - 0xD800) * 0x400 + (second - 0xDC00)))
  else none

/-- The number of an escape of four digits that stands at the cursor. -/
def unitEscape? (c : Cursor) : Option Nat :=
  match c.rest.take 6 with
  | ['\\', 'u', a, b, d, e] => Text.hexNat? [a, b, d, e]
  | _ => none

/-- The empty lines inside a quoted scalar. -/
def quotedBreaks : Nat → Cursor → Except YamlError (List Char × Cursor)
  | 0, _ => .error .malformed
  | fuel + 1, c =>
    if c.atDocumentMark then .error .malformed
    else
      let c := c.skipWhile fun ch => ch == ' ' || ch == '\t'
      if isBreak c.current then do
        let (ends, c) := c.lineBreak
        let (more, c) ← quotedBreaks fuel c
        return (ends ++ more, c)
      else .ok ([], c)

/-- Blanks inside a quoted scalar; a single line end reads as a space. -/
def quotedSpaces (c : Cursor) : Except YamlError (List Char × Cursor) := do
  let blanks := c.takeWhile fun ch => ch == ' ' || ch == '\t'
  let c := c.skip blanks.length
  if c.current == endOfText then .error .malformed
  else if isBreak c.current then
    let (ends, c) := c.lineBreak
    let (breaks, c) ← quotedBreaks (c.rest.length + 1) c
    if ends != ['\n'] then return (ends ++ breaks, c)
    else if breaks.isEmpty then return ([' '], c)
    else return (breaks, c)
  else return (blanks, c)

/-- The escape after a backslash inside double quotes. -/
def quotedEscape (c : Cursor) : Except YamlError (List Char × Cursor) := do
  let ch := c.current
  match simpleEscapes.lookup ch with
  | some plain => return ([plain], c.next)
  | none =>
    match numericEscapes.lookup ch with
    | some width =>
      let c := c.next
      let digits := c.rest.take width
      if digits.length < width then .error .malformed
      else
        match Text.hexNat? digits with
        | none => .error .malformed
        | some n =>
          let c := c.skip width
          match (unitEscape? c).bind (paired? n) with
          | some whole => return ([whole], c.skip 6)
          | none => return ([← numbered n], c)
    | none =>
      if isBreak ch then quotedBreaks (c.rest.length + 1) c.lineBreak.2
      else .error .malformed

/-- A character that stops a run of ordinary characters inside quotes. -/
def stopsQuoted (c : Char) : Bool :=
  c == '\'' || c == '"' || c == '\\' || isGapOrEnd c

/-- The characters inside quotes up to a blank or the closing quote. -/
def quotedRun (double : Bool) : Nat → Cursor → Except YamlError (List Char × Cursor)
  | 0, _ => .error .malformed
  | fuel + 1, c =>
    let run := c.takeWhile (!stopsQuoted ·)
    let c := c.skip run.length
    let ch := c.current
    let continued (chars : List Char) (c : Cursor) : Except YamlError (List Char × Cursor) := do
      let (more, c) ← quotedRun double fuel c
      return (run ++ chars ++ more, c)
    if !double && ch == '\'' && c.peek 1 == '\'' then continued ['\''] (c.skip 2)
    else if (double && ch == '\'') || (!double && (ch == '"' || ch == '\\')) then
      continued [ch] c.next
    else if double && ch == '\\' then do
      let (chars, c) ← quotedEscape c.next
      continued chars c
    else .ok (run, c)

/-- The rest of a quoted scalar behind its first run, up to and with the closing quote. -/
def quotedRest (double : Bool) (quote : Char) : Nat → Cursor → Except YamlError (List Char × Cursor)
  | 0, _ => .error .malformed
  | fuel + 1, c =>
    if c.current == quote then .ok ([], c.next)
    else do
      let (blanks, c) ← quotedSpaces c
      let (run, c) ← quotedRun double (c.rest.length + 1) c
      let (more, c) ← quotedRest double quote fuel c
      return (blanks ++ run ++ more, c)

/-- A scalar in quotes; the cursor is at the opening one. -/
def quotedScalar (c : Cursor) : Except YamlError (List Char × Cursor) := do
  let quote := c.current
  let double := quote == '"'
  let c := c.next
  let (run, c) ← quotedRun double (c.rest.length + 1) c
  let (more, c) ← quotedRest double quote (c.rest.length + 1) c
  return (run ++ more, c)

/-! ## Block scalars -/

/-- What happens to the line ends behind a block scalar. -/
inductive Chomping where
  | strip
  | clip
  | keep
  deriving DecidableEq

/-- The sign that sets the chomping. -/
def chomping? (c : Char) : Option Chomping :=
  if c == '+' then some .keep else if c == '-' then some .strip else none

/-- The digit that sets the indentation. -/
def increment? (c : Char) : Option Nat :=
  if '0' ≤ c && c ≤ '9' then some (c.toNat - '0'.toNat) else none

/-- The signs behind the start of a block scalar, in either order. -/
def blockSigns (c : Cursor) : Except YamlError ((Chomping × Option Nat) × Cursor) := do
  let (chomping, increment, c) :=
    match chomping? c.current with
    | some chomping =>
      match increment? (c.peek 1) with
      | some n => (chomping, some n, c.skip 2)
      | none => (chomping, none, c.next)
    | none =>
      match increment? c.current with
      | some n =>
        match chomping? (c.peek 1) with
        | some chomping => (chomping, some n, c.skip 2)
        | none => (.clip, some n, c.next)
      | none => (.clip, none, c)
  if increment == some 0 || !isSpaceOrEnd c.current then .error .malformed
  else return ((chomping, increment), c)

/-- The rest of a line that may hold a comment only. -/
def ignoredLine (c : Cursor) : Except YamlError Cursor :=
  let c := c.skipSpaces
  let c := if c.current == '#' then c.skipWhile (!isBreakOrEnd ·) else c
  if isBreakOrEnd c.current then .ok c.lineBreak.2 else .error .malformed

/-- The empty lines in front of a block scalar whose indentation is not given: their line ends, the
greatest column of their spaces and the end of the last of them. -/
def leadingBreaks : Nat → Nat → Position → Cursor → (List Char × Nat × Position) × Cursor
  | 0, deepest, stop, c => (([], deepest, stop), c)
  | fuel + 1, deepest, stop, c =>
    if c.current == ' ' then
      let c := c.next
      leadingBreaks fuel (max deepest c.column) stop c
    else if isBreak c.current then
      let (ends, c) := c.lineBreak
      let ((more, deepest, stop), c) := leadingBreaks fuel deepest c.position c
      ((ends ++ more, deepest, stop), c)
    else (([], deepest, stop), c)

/-- The empty lines of a block scalar behind a cursor at the start of a line: their line ends and the
end of the last of them. -/
def blockBreaks (indent : Nat) : Nat → Position → Cursor → (List Char × Position) × Cursor
  | 0, stop, c => (([], stop), c)
  | fuel + 1, stop, c =>
    let c := c.skipIndent indent
    if isBreak c.current then
      let (ends, c) := c.lineBreak
      let ((more, stop), c) := blockBreaks indent fuel c.position c
      ((ends ++ more, stop), c)
    else (([], stop), c)

/-- The lines of a block scalar from its first line on, the empty lines in front of each coming with
it. The last answer holds the end of the last line and the empty lines behind it. -/
def blockLines (folded : Bool) (indent : Nat) :
    Nat → List Char → Position → Cursor → (List Char × List Char × List Char × Position) × Cursor
  | 0, breaks, stop, c => (([], [], breaks, stop), c)
  | fuel + 1, breaks, stop, c =>
    if c.column == indent && c.current != endOfText then
      let indented := c.current == ' ' || c.current == '\t'
      let line := c.takeWhile (!isBreakOrEnd ·)
      let (ends, c) := (c.skip line.length).lineBreak
      let ((after, stop), c) := blockBreaks indent (c.rest.length + 1) c.position c
      if c.column == indent && c.current != endOfText then
        let joined :=
          if folded && ends == ['\n'] && !indented && c.current != ' ' && c.current != '\t' then
            if after.isEmpty then [' '] else []
          else ends
        let ((text, ends, rest, stop), c) := blockLines folded indent fuel after stop c
        ((breaks ++ line ++ joined ++ text, ends, rest, stop), c)
      else ((breaks ++ line, ends, after, stop), c)
    else (([], [], breaks, stop), c)

/-- A block scalar; the cursor is at its first sign. The answer is its text and its end. -/
def blockScalar (parentIndent : Int) (c : Cursor) : Except YamlError ((List Char × Position) × Cursor) := do
  let folded := c.current == '>'
  let ((chomping, increment), c) ← blockSigns c.next
  let c ← ignoredLine c
  let least := (max (parentIndent + 1) 1).toNat
  let (indent, breaks, stop, c) :=
    match increment with
    | none =>
      let ((breaks, deepest, stop), c) := leadingBreaks (c.rest.length + 1) 0 c.position c
      (max least deepest, breaks, stop, c)
    | some n =>
      let indent := least + n - 1
      let ((breaks, stop), c) := blockBreaks indent (c.rest.length + 1) c.position c
      (indent, breaks, stop, c)
  let ((text, ends, rest, stop), c) := blockLines folded indent (c.rest.length + 1) breaks stop c
  let tail := match chomping with
    | .strip => []
    | .clip => ends
    | .keep => ends ++ rest
  return ((text ++ tail, stop), c)

/-! ## Plain scalars -/

/-- A character that separates the parts of a collection in brackets. -/
def isFlowMark (c : Char) : Bool :=
  c == ',' || c == '[' || c == ']' || c == '\x7b' || c == '\x7d'

/-- The characters of a plain scalar up to a blank or a mark. -/
def plainRun (inFlow : Bool) : List Char → List Char
  | [] => []
  | ch :: rest =>
    let following := rest.headD endOfText
    if isGapOrEnd ch then []
    else if ch == ':' && (isGapOrEnd following || (inFlow && isFlowMark following)) then []
    else if inFlow && (isFlowMark ch || ch == '?') then []
    else ch :: plainRun inFlow rest

/-- The empty lines inside a plain scalar; nothing when a document mark ends it. -/
def plainBreaks : Nat → Cursor → Option (List Char) × Cursor
  | 0, c => (some [], c)
  | fuel + 1, c =>
    if c.current == ' ' then plainBreaks fuel c.next
    else if isBreak c.current then
      let (ends, c) := c.lineBreak
      if c.atDocumentMark then (none, c)
      else
        let (more, c) := plainBreaks fuel c
        (more.map (ends ++ ·), c)
    else (some [], c)

/-- Blanks behind a run of a plain scalar, and whether they held a line end. Without a text, the
scalar ends. -/
def plainSpaces (c : Cursor) : List Char × Bool × Cursor :=
  let blanks := c.takeWhile (· == ' ')
  let c := c.skip blanks.length
  if isBreak c.current then
    let (ends, c) := c.lineBreak
    if c.atDocumentMark then ([], true, c)
    else
      match plainBreaks (c.rest.length + 1) c with
      | (none, c) => ([], true, c)
      | (some breaks, c) =>
        if ends != ['\n'] then (ends ++ breaks, true, c)
        else if breaks.isEmpty then ([' '], true, c)
        else (breaks, true, c)
  else (blanks, false, c)

/-- What is read of a plain scalar: its text, its end, and whether the cursor is behind a line end
that follows it. -/
structure Plain where
  text : List Char
  stop : Position
  newLine : Bool

/-- A plain scalar from a cursor on, behind the given blanks. -/
def plainFrom (inFlow : Bool) (indent : Int) : Nat → List Char → Plain → Cursor → Plain × Cursor
  | 0, _, read, c => (read, c)
  | fuel + 1, blanks, read, c =>
    if c.current == '#' then (read, c)
    else
      let run := plainRun inFlow c.rest
      if run.isEmpty then (read, c)
      else
        let c := c.skip run.length
        let (spaces, newLine, after) := plainSpaces c
        let read := ⟨read.text ++ blanks ++ run, c.position, newLine⟩
        if spaces.isEmpty || after.current == '#' || (!inFlow && (after.column : Int) < indent) then
          (read, after)
        else plainFrom inFlow indent fuel spaces read after

/-- A plain scalar; its lines are indented at least as far as given. -/
def plainScalar (inFlow : Bool) (indent : Int) (c : Cursor) : Plain × Cursor :=
  plainFrom inFlow indent (c.rest.length + 1) [] ⟨[], c.position, false⟩ c

end DocLint.Yaml.Scalars
