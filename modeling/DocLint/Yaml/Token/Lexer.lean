import DocLint.Number.Integer
import DocLint.Yaml.Token
import DocLint.Yaml.Token.Scalar

/-!
# The tokens of a YAML text

A text is read into tokens from left to right. A place where a key may stand is kept in mind until a
colon on the same line shows that it is one; the key's tokens are then put in front of what was read
since. `Token.scan` answers all tokens up to the end of the text, or those in front of the first
fault together with it.
-/
namespace DocLint.Yaml

/-- A place where a key may start: the number of tokens in front of it, whether only a key may stand
there, and where it is. -/
structure KeyPlace where
  tokenCount : Nat
  required : Bool
  cursor : Cursor

/-- The state of reading tokens. `indent` is the column of the innermost block collection, and
`keyPlaces` holds at most one place for each depth of brackets. -/
structure Lexer where
  cursor : Cursor
  tokens : Array Token
  depth : Nat
  indent : Int
  outerIndents : List Int
  keyAllowed : Bool
  keyPlaces : List (Nat × KeyPlace)

namespace Lexer

/-- The state at the start of a text. -/
def ofText (s : String) : Lexer :=
  ⟨Cursor.ofText s, #[], 0, -1, [], true, []⟩

/-- The longest distance from the start of a key to its colon. -/
def keyLimit : Nat := 1024

/-- A token without characters at the cursor. -/
def mark (l : Lexer) (kind : TokenKind) : Lexer :=
  { l with tokens := l.tokens.push ⟨kind, l.cursor.position, l.cursor.position⟩ }

/-- A token of the next characters. -/
def take (l : Lexer) (kind : TokenKind) (width : Nat) : Lexer :=
  let after := l.cursor.skip width
  { l with
    tokens := l.tokens.push ⟨kind, l.cursor.position, after.position⟩
    cursor := after }

/-- The state without the place for a key at the current depth; a place where only a key may stand
must not be given up. -/
def dropKeyPlace (l : Lexer) : Except YamlError Lexer :=
  match l.keyPlaces.lookup l.depth with
  | some place =>
    if place.required then .error .malformed
    else .ok { l with keyPlaces := l.keyPlaces.filter (·.1 != l.depth) }
  | none => .ok l

/-- The state without the places that a colon is too far away from. -/
def dropStaleKeyPlaces (l : Lexer) : Except YamlError Lexer :=
  let stale (place : KeyPlace) : Bool :=
    place.cursor.line != l.cursor.line || keyLimit < l.cursor.index - place.cursor.index
  if l.keyPlaces.any fun e => stale e.2 && e.2.required then .error .malformed
  else .ok { l with keyPlaces := l.keyPlaces.filter fun e => !stale e.2 }

/-- The state with the cursor kept in mind as a place for a key, where one may stand. -/
def noteKeyPlace (l : Lexer) : Except YamlError Lexer :=
  if l.keyAllowed then do
    let required := l.depth == 0 && l.indent == (l.cursor.column : Int)
    let l ← l.dropKeyPlace
    return { l with keyPlaces := (l.depth, ⟨l.tokens.size, required, l.cursor⟩) :: l.keyPlaces }
  else .ok l

/-- Ends the block collections that are indented further than a column. -/
def unindent (l : Lexer) (column : Int) : Lexer :=
  if l.depth != 0 then l else close l.outerIndents l
where
  /-- Ends the innermost collection and goes on with those around it. -/
  close : List Int → Lexer → Lexer
    | [], l => l
    | outer :: rest, l =>
      if column < l.indent then
        close rest { l.mark .blockEnd with indent := outer, outerIndents := rest }
      else l

/-- Whether a block collection starts at a column. -/
def opensAt (l : Lexer) (column : Nat) : Bool :=
  l.indent < (column : Int)

/-- The state inside a block collection at a column. -/
def indentTo (l : Lexer) (column : Nat) : Lexer :=
  { l with indent := column, outerIndents := l.indent :: l.outerIndents }

/-- The state with a block collection started at the cursor, unless it is inside one there. -/
def openBlock (l : Lexer) (kind : TokenKind) : Lexer :=
  if l.opensAt l.cursor.column then (l.mark kind).indentTo l.cursor.column else l

/-- Moves over spaces, comments and line ends. Behind a line end outside brackets a key may stand. -/
def skipGaps : Nat → Lexer → Lexer
  | 0, l => l
  | fuel + 1, l =>
    let c := l.cursor.skipSpaces
    let c := if c.current == '#' then c.skipWhile (!isBreakOrEnd ·) else c
    if isBreak c.current then
      skipGaps fuel
        { l with cursor := c.lineBreak.2, keyAllowed := l.keyAllowed || l.depth == 0 }
    else { l with cursor := c }

/-! ## Directives, tags and anchors -/

/-- A handle of a tag: an exclamation mark, or a name between two of them. -/
def tagHandle (c : Cursor) : Except YamlError (String × Cursor) :=
  if c.current != '!' then .error .malformed
  else
    let inner := c.next
    if inner.current == ' ' then .ok ("!", inner)
    else
      let name := inner.takeWhile isNameChar
      let c := inner.skip name.length
      if c.current == '!' then .ok (String.ofList ('!' :: name ++ ['!']), c.next)
      else .error .malformed

/-- A character that stands for itself in a tag. -/
def isTagChar (c : Char) : Bool :=
  c.isAlphanum || "-;/?:@&=+$,_.!~*'()[]".toList.contains c

/-- Bytes written as a percent sign and two hexadecimal digits each. -/
def tagBytes : Nat → Cursor → Except YamlError (List UInt8 × Cursor)
  | 0, _ => .error .malformed
  | fuel + 1, c =>
    if c.current == '%' then
      let digits := c.next.rest.take 2
      match digits.length == 2, Text.hexNat? digits with
      | true, some n => do
        let (more, c) ← tagBytes fuel (c.skip 3)
        return (UInt8.ofNat n :: more, c)
      | _, _ => .error .malformed
    else .ok ([], c)

/-- The characters of a tag. -/
def tagText : Nat → Cursor → Except YamlError (List Char × Cursor)
  | 0, _ => .error .malformed
  | fuel + 1, c =>
    let run := c.takeWhile isTagChar
    let c := c.skip run.length
    if c.current == '%' then do
      let (bytes, c) ← tagBytes (c.rest.length + 1) c
      match String.fromUTF8? ⟨bytes.toArray⟩ with
      | some decoded =>
        let (more, c) ← tagText fuel c
        return (run ++ decoded.toList ++ more, c)
      | none => .error .malformed
    else .ok (run, c)

/-- The characters of a tag, at least one. -/
def nonemptyTagText (c : Cursor) : Except YamlError (String × Cursor) := do
  let (text, after) ← tagText (c.rest.length + 1) c
  if after.index == c.index then .error .malformed
  else return (String.ofList text, after)

/-- A number of a version. -/
def versionNumber (c : Cursor) : Except YamlError (Nat × Cursor) :=
  let digits := c.takeWhile fun ch => '0' ≤ ch && ch ≤ '9'
  match Number.beyondLimit? (String.ofList digits), (String.ofList digits).toNat? with
  | some count, _ => .error (.tooManyDigits count)
  | none, some n => .ok (n, c.skip digits.length)
  | none, none => .error .malformed

/-- A directive; the cursor is at its percent sign. The second cursor is where its token ends. -/
def directive (c : Cursor) : Except YamlError (Directive × Cursor × Cursor) := do
  let c := c.next
  let name := c.takeWhile isNameChar
  let c := c.skip name.length
  if name.isEmpty || !isSpaceOrEnd c.current then .error .malformed
  else if name == "YAML".toList then
    let (major, c) ← versionNumber c.skipSpaces
    if c.current != '.' then .error .malformed
    else
      let (minor, c) ← versionNumber c.next
      if !isSpaceOrEnd c.current then .error .malformed
      else return (.version major minor, c, ← Scalars.ignoredLine c)
  else if name == "TAG".toList then
    let (handle, c) ← tagHandle c.skipSpaces
    if c.current != ' ' then .error .malformed
    else
      let (expansion, c) ← nonemptyTagText c.skipSpaces
      if !isSpaceOrEnd c.current then .error .malformed
      else return (.tag handle expansion, c, ← Scalars.ignoredLine c)
  else
    return (.other, c, ← Scalars.ignoredLine (c.skipWhile (!isBreakOrEnd ·)))

/-- The name of an anchor or alias; the cursor is at its sign. -/
def anchorName (c : Cursor) : Except YamlError (String × Cursor) :=
  let c := c.next
  let name := c.takeWhile isNameChar
  let c := c.skip name.length
  if name.isEmpty || !(isGapOrEnd c.current || "?:,]\x7d%@\x60".toList.contains c.current) then
    .error .malformed
  else .ok (String.ofList name, c)

/-- Whether an exclamation mark comes before the next space or line end. -/
def hasSecondMark : List Char → Bool
  | [] => false
  | ch :: rest => if isSpaceOrEnd ch then false else ch == '!' || hasSecondMark rest

/-- A tag as its handle and suffix; the cursor is at its exclamation mark. -/
def tag (c : Cursor) : Except YamlError (Option String × String × Cursor) := do
  let (handle, suffix, c) ←
    if c.peek 1 == '<' then do
      let (suffix, c) ← nonemptyTagText (c.skip 2)
      if c.current == '>' then pure (none, suffix, c.next) else .error .malformed
    else if isGapOrEnd (c.peek 1) then pure (none, "!", c.next)
    else if hasSecondMark c.next.rest then do
      let (handle, c) ← tagHandle c
      let (suffix, c) ← nonemptyTagText c
      pure (some handle, suffix, c)
    else do
      let (suffix, c) ← nonemptyTagText c.next
      pure (some "!", suffix, c)
  if isSpaceOrEnd c.current then return (handle, suffix, c) else .error .malformed

/-! ## Tokens -/

/-- Ends every block collection and gives up the place for a key. -/
def endBlocks (l : Lexer) : Except YamlError Lexer := do
  let l ← (l.unindent (-1)).dropKeyPlace
  return { l with keyAllowed := false }

/-- The state with a token of a given stretch. -/
def emit (l : Lexer) (kind : TokenKind) (stop : Position) (after : Cursor) : Lexer :=
  { l with tokens := l.tokens.push ⟨kind, l.cursor.position, stop⟩, cursor := after }

/-- A token that may be or start a key, after which no key may start. -/
def keyStart (l : Lexer) : Except YamlError Lexer := do
  let l ← l.noteKeyPlace
  return { l with keyAllowed := false }

/-- An opening bracket. -/
def openFlow (l : Lexer) (kind : TokenKind) : Except YamlError Lexer := do
  let l ← l.noteKeyPlace
  return { l with depth := l.depth + 1, keyAllowed := true }.take kind 1

/-- A closing bracket. -/
def closeFlow (l : Lexer) (kind : TokenKind) : Except YamlError Lexer := do
  if l.depth == 0 then .error .malformed
  else
    let l ← l.dropKeyPlace
    return { l with depth := l.depth - 1, keyAllowed := false }.take kind 1

/-- A dash or question mark that starts an entry of a block collection. -/
def blockIndicator (l : Lexer) (collection kind : TokenKind) (keyAfter : Bool) :
    Except YamlError Lexer := do
  if l.depth == 0 && !l.keyAllowed then .error .malformed
  else
    let l := if l.depth == 0 then l.openBlock collection else l
    let l ← { l with keyAllowed := keyAfter }.dropKeyPlace
    return l.take kind 1

/-- A colon. When a place for a key is kept in mind, the key starts there. -/
def valueIndicator (l : Lexer) : Except YamlError Lexer := do
  match l.keyPlaces.lookup l.depth with
  | some place =>
    let l := { l with keyPlaces := l.keyPlaces.filter (·.1 != l.depth), keyAllowed := false }
    let position := place.cursor.position
    let opened := l.depth == 0 && l.opensAt place.cursor.column
    let l := if opened then l.indentTo place.cursor.column else l
    let inserted := (if opened then [⟨.blockMappingStart, position, position⟩] else []) ++
      [⟨.key, position, position⟩]
    let before := l.tokens.extract 0 place.tokenCount
    let behind := l.tokens.extract place.tokenCount l.tokens.size
    return { l with tokens := before ++ inserted.toArray ++ behind }.take .value 1
  | none =>
    l.blockIndicator .blockMappingStart .value (l.depth == 0)

/-- A scalar in quotes. -/
def quotedToken (l : Lexer) : Except YamlError Lexer := do
  let l ← l.keyStart
  let (text, after) ← Scalars.quotedScalar l.cursor
  return l.emit (.scalar (String.ofList text) false) after.position after

/-- A block scalar. -/
def blockToken (l : Lexer) : Except YamlError Lexer := do
  let l ← { l with keyAllowed := true }.dropKeyPlace
  let ((text, stop), after) ← Scalars.blockScalar l.indent l.cursor
  return l.emit (.scalar (String.ofList text) false) stop after

/-- A plain scalar. -/
def plainToken (l : Lexer) : Except YamlError Lexer := do
  let l ← l.keyStart
  let (read, after) := Scalars.plainScalar (l.depth != 0) (l.indent + 1) l.cursor
  return { l.emit (.scalar (String.ofList read.text) true) read.stop after with
    keyAllowed := read.newLine }

/-- Whether a plain scalar may start at the cursor. -/
def startsPlain (l : Lexer) : Bool :=
  let ch := l.cursor.current
  let mark := "-?:,[]\x7b\x7d#&*!|>'\"%@\x60".toList.contains ch
  (!isGapOrEnd ch && !mark) ||
    (!isGapOrEnd (l.cursor.peek 1) && (ch == '-' || (l.depth == 0 && (ch == '?' || ch == ':'))))

/-- Whether three equal characters at the start of a line mark a document. -/
def atMark (l : Lexer) (ch : Char) : Bool :=
  l.cursor.column == 0 && l.cursor.current == ch && l.cursor.atDocumentMark

/-- The state behind the next token that has characters. -/
def step (l : Lexer) : Except YamlError Lexer := do
  let ch := l.cursor.current
  let gapFollows := isGapOrEnd (l.cursor.peek 1)
  if ch == '%' && l.cursor.column == 0 then do
    let l ← l.endBlocks
    let (d, stop, after) ← directive l.cursor
    return l.emit (.directive d) stop.position after
  else if l.atMark '-' then return (← l.endBlocks).take .documentStart 3
  else if l.atMark '.' then return (← l.endBlocks).take .documentEnd 3
  else if ch == '[' then l.openFlow .flowSequenceStart
  else if ch == '\x7b' then l.openFlow .flowMappingStart
  else if ch == ']' then l.closeFlow .flowSequenceEnd
  else if ch == '\x7d' then l.closeFlow .flowMappingEnd
  else if ch == ',' then
    return (← { l with keyAllowed := true }.dropKeyPlace).take .flowEntry 1
  else if ch == '-' && gapFollows then l.blockIndicator .blockSequenceStart .blockEntry true
  else if ch == '?' && (l.depth != 0 || gapFollows) then
    l.blockIndicator .blockMappingStart .key (l.depth == 0)
  else if ch == ':' && (l.depth != 0 || gapFollows) then l.valueIndicator
  else if ch == '*' then do
    let l ← l.keyStart
    let (name, after) ← anchorName l.cursor
    return l.emit (.alias name) after.position after
  else if ch == '&' then do
    let l ← l.keyStart
    let (name, after) ← anchorName l.cursor
    return l.emit (.anchor name) after.position after
  else if ch == '!' then do
    let l ← l.keyStart
    let (handle, suffix, after) ← tag l.cursor
    return l.emit (.tag handle suffix) after.position after
  else if (ch == '|' || ch == '>') && l.depth == 0 then l.blockToken
  else if ch == '\'' || ch == '"' then l.quotedToken
  else if l.startsPlain then l.plainToken
  else .error .malformed

/-- What a round of scanning leads to: the state behind the next token, or the end of scanning with all
tokens, or with those in front of a fault. -/
inductive Round where
  | onward (l : Lexer)
  | ended (tokens : Array Token) (fault : Option YamlError)

/-- A round of scanning. Gaps are skipped and block collections ended first. -/
@[irreducible]
def round (l : Lexer) : Round :=
  let l := skipGaps (l.cursor.rest.length + 1) l
  match l.dropStaleKeyPlaces with
  | .error e => .ended l.tokens (some e)
  | .ok l =>
    let l := l.unindent l.cursor.column
    if l.cursor.current == endOfText then
      match l.endBlocks with
      | .ok l => .ended (l.mark .streamEnd).tokens none
      | .error e => .ended l.tokens (some e)
    else
      match l.step with
      | .ok next => .onward next
      | .error e => .ended l.tokens (some e)

/-- All tokens from a state on, or those in front of the first fault together with it. -/
def run : Nat → Lexer → Array Token × Option YamlError
  | 0, l => (l.tokens, some .malformed)
  | fuel + 1, l =>
    match l.round with
    | .onward next => run fuel next
    | .ended tokens fault => (tokens, fault)

end Lexer

/-- The tokens of a text up to its end, or those in front of the first fault together with it. -/
def Token.scan (s : String) : Array Token × Option YamlError :=
  if s.toList.all isAllowed then
    let l := Lexer.ofText s
    let l := if l.cursor.current == '\uFEFF' then { l with cursor := l.cursor.next } else l
    l.run (s.length + 2)
  else (#[], some .malformed)

end DocLint.Yaml
