import DocLint.Number.Integer
import DocLint.Pattern.Basic
import DocLint.Text.Hex

/-!
# The syntax of patterns: symbols, escapes and sets

A pattern is read as a row of symbols: characters, and characters behind a backslash. The symbols that
are not groups are read here; `Pattern.ofText?` in the next module reads whole patterns.
-/
namespace DocLint

/-- Why a text is not a pattern. -/
inductive PatternError where
  | malformed
  | repetitionTooLarge
  /-- The pattern asks for the letters of ASCII and for those of Unicode. -/
  | mixedAlphabets
  deriving DecidableEq, Inhabited

namespace Pattern

/-- A character of a written pattern, with or without a backslash in front. -/
inductive Symbol where
  | plain (c : Char)
  | escaped (c : Char)
  deriving DecidableEq, Inhabited

namespace Symbol

/-- The symbols of a written pattern; a backslash at its end is refused. -/
def ofChars? : List Char → Option (List Symbol)
  | [] => some []
  | '\\' :: c :: rest => (ofChars? rest).map (.escaped c :: ·)
  | ['\\'] => none
  | c :: rest => (ofChars? rest).map (.plain c :: ·)

/-- The characters of a symbol. -/
def chars : Symbol → List Char
  | .plain c => [c]
  | .escaped c => ['\\', c]

end Symbol

/-- How the symbols of a part are to be understood. -/
structure Mode where
  folded : Bool
  multiline : Bool
  dotAll : Bool
  verbose : Bool
  ascii : Bool
  unicode : Bool
  /-- Repetitions are refused. -/
  unrepeated : Bool
  deriving DecidableEq, Inhabited

namespace Mode

/-- The mode of a pattern without flags. -/
def standard : Mode :=
  ⟨false, false, false, false, false, false, false⟩

/-- The alphabet that a mode asks for. -/
def alphabet (m : Mode) : Alphabet :=
  if m.ascii then .ascii else .unicode

/-- A mode with one flag turned on or off. -/
def set (on : Bool) (m : Mode) : Char → Mode
  | 'i' => { m with folded := on }
  | 'm' => { m with multiline := on }
  | 's' => { m with dotAll := on }
  | 'x' => { m with verbose := on }
  | 'a' => { m with ascii := on }
  | 'u' => { m with unicode := on }
  | 't' => { m with unrepeated := on }
  | _ => m

/-- A mode with flags for a whole pattern. -/
def withGlobal (m : Mode) (flags : List Char) : Mode :=
  flags.foldl (set true) m

/-- A mode inside a group with flags of its own. An alphabet replaces the one around. -/
def within (m : Mode) (on off : List Char) : Mode :=
  let m := if on.contains 'a' || on.contains 'u' then { m with ascii := false, unicode := false }
    else m
  off.foldl (set false) (on.foldl (set true) m)

/-- The set of one code point. -/
def literal (m : Mode) (code : Nat) : Pattern :=
  .one ⟨[.range code code], false, m.folded, m.alphabet⟩

/-- The set of the characters of a class, or of all others. -/
def classed (m : Mode) (c : CharClass) (negated : Bool) : Pattern :=
  .one ⟨[.named c negated], false, m.folded, m.alphabet⟩

/-- The set that the dot stands for. -/
def dot (m : Mode) : Pattern :=
  .one (if m.dotAll then ⟨[], true, false, m.alphabet⟩
    else ⟨[.range 10 10], true, false, m.alphabet⟩)

end Mode

/-- What is known of the groups while a pattern is read. -/
structure Groups where
  /-- The number of groups opened so far. -/
  opened : Nat
  /-- The closed groups with the widths of their texts. -/
  closed : List (Nat × Width)
  names : List (String × Nat)
  /-- Inside a look behind, the number of groups that were opened in front of it. -/
  behindFrom : Option Nat
  /-- The groups that conditions ask for. -/
  asked : List Nat
  deriving Inhabited

namespace Groups

/-- The groups at the start of a pattern. -/
def none : Groups :=
  ⟨0, [], [], Option.none, []⟩

/-- Whether the text of a group is known as a whole. -/
def isClosed (g : Groups) (number : Nat) : Bool :=
  (g.closed.lookup number).isSome

/-- Whether a group may be named where reading stands: a look behind may only name closed groups
opened in front of it. -/
def mayName (g : Groups) (number : Nat) : Bool :=
  match g.behindFrom with
  | some opened => g.isClosed number && number ≤ opened
  | Option.none => true

/-- The width of a pattern whose references are to closed groups. -/
def widthOf (g : Groups) (p : Pattern) : Width :=
  p.width fun number => (g.closed.lookup number).getD ⟨0, some 0⟩

end Groups

/-- What is left to be read, with what is known of the groups. -/
structure ReaderState where
  rest : List Symbol
  groups : Groups
  deriving Inhabited

/-- A reader of a part of a pattern. -/
abbrev Reader := StateT ReaderState (Except PatternError)

namespace Reader

/-- The next symbol, which stays. -/
def peek : Reader (Option Symbol) := do
  return (← get).rest.head?

/-- The next symbol, which is taken. -/
def next : Reader (Option Symbol) := do
  let s ← get
  set { s with rest := s.rest.tail }
  return s.rest.head?

/-- Takes a character if it is next. -/
def accept (c : Char) : Reader Bool := do
  let s ← get
  if s.rest.head? == some (.plain c) then
    set { s with rest := s.rest.tail }
    return true
  else return false

/-- Takes a character that must be next. -/
def expect (c : Char) : Reader Unit := do
  unless ← accept c do throw .malformed

/-- Takes a symbol that must be there. -/
def demand : Reader Symbol := do
  match ← next with
  | some symbol => return symbol
  | none => throw .malformed

/-- The characters of leading symbols that pass a test, as far as a number of them. -/
def leading (test : Char → Bool) : Nat → List Symbol → List Char
  | n + 1, .plain c :: rest => if test c then c :: leading test n rest else []
  | _, _ => []

/-- Takes at most a number of characters that pass a test. -/
def takeUpTo (n : Nat) (test : Char → Bool) : Reader (List Char) := do
  let s ← get
  let taken := leading test n s.rest
  set { s with rest := s.rest.drop taken.length }
  return taken

/-- Takes all leading characters that pass a test. -/
def takeAll (test : Char → Bool) : Reader (List Char) := do
  takeUpTo (← get).rest.length test

/-- Takes what stands in front of a character, and the character. Something must stand there. -/
def takeUntil (stop : Char) : Reader (List Char) := do
  let s ← get
  let taken := s.rest.takeWhile (· != .plain stop)
  match taken, s.rest.drop taken.length with
  | _ :: _, _ :: rest =>
    set { s with rest }
    return taken.flatMap Symbol.chars
  | _, _ => throw .malformed

/-- Changes what is known of the groups. -/
def modifyGroups (f : Groups → Groups) : Reader Unit :=
  modify fun s => { s with groups := f s.groups }

end Reader

/-- An octal digit. -/
def isOctal (c : Char) : Bool :=
  '0' ≤ c && c ≤ '7'

/-- The number that octal digits write. -/
def octalNat (cs : List Char) : Nat :=
  cs.foldl (fun n c => 8 * n + (c.toNat - '0'.toNat)) 0

/-- The code point of an escape that stands for a control character or a backslash. -/
def controlCode? : Char → Option Nat
  | 'a' => some 7
  | 'f' => some 12
  | 'n' => some 10
  | 'r' => some 13
  | 't' => some 9
  | 'v' => some 11
  | '\\' => some 92
  | _ => none

/-- The class of characters that a letter behind a backslash names; a capital names all others. -/
def namedClass? : Char → Option (CharClass × Bool)
  | 'd' => some (.digit, false)
  | 'D' => some (.digit, true)
  | 's' => some (.space, false)
  | 'S' => some (.space, true)
  | 'w' => some (.word, false)
  | 'W' => some (.word, true)
  | _ => none

/-- The number of hexadecimal digits behind a letter that announces them. -/
def hexDigits? : Char → Option Nat
  | 'x' => some 2
  | 'u' => some 4
  | 'U' => some 8
  | _ => none

/-- Reads a code point of a fixed number of hexadecimal digits. -/
def readHex (width : Nat) : Reader Nat := do
  let digits ← Reader.takeUpTo width fun c => (Text.hexValue? c).isSome
  match digits.length == width, Text.hexNat? digits with
  | true, some n => if n < 0x110000 then return n else throw .malformed
  | _, _ => throw .malformed

/-- Reads a code point of three octal digits at most, of which one is known. -/
def readOctal (first : Char) : Reader Nat := do
  let n := octalNat (first :: (← Reader.takeUpTo 2 isOctal))
  if n ≤ 0o377 then return n else throw .malformed

/-- Reads the rest of an escape that stands for one code point, the same inside and outside of sets. A
letter without a meaning is refused. -/
def readCode (c : Char) : Reader Nat := do
  match controlCode? c, hexDigits? c with
  | some n, _ => return n
  | none, some width => readHex width
  | none, none => if c.isAlphanum then throw .malformed else return c.toNat

/-- A member of a set as it is written: a code point, which can start or end a range, or a class. -/
inductive Member where
  | code (n : Nat)
  | named (c : CharClass) (negated : Bool)

/-- A member on its own. -/
def Member.item : Member → SetItem
  | .code n => .range n n
  | .named c negated => .named c negated

/-- Reads the rest of a member that starts with a symbol. -/
def readMember : Symbol → Reader Member
  | .plain c => return .code c.toNat
  | .escaped c => do
    if c == 'b' then return .code 8
    if isOctal c then return .code (← readOctal c)
    match namedClass? c with
    | some (name, negated) => return .named name negated
    | none => return .code (← readCode c)

/-- Reads the members of a set up to its closing bracket; a bracket in front of all members is one of
them. The first argument bounds their number. -/
def readMembers : Nat → List SetItem → Reader (List SetItem)
  | 0, _ => throw .malformed
  | fuel + 1, done => do
    let first ← Reader.demand
    if first == .plain ']' && !done.isEmpty then return done.reverse
    let low ← readMember first
    if ← Reader.accept '-' then
      let last ← Reader.demand
      if last == .plain ']' then return (.range 45 45 :: low.item :: done).reverse
      match low, ← readMember last with
      | .code m, .code n =>
        if n < m then throw .malformed else readMembers fuel (.range m n :: done)
      | _, _ => throw .malformed
    else readMembers fuel (low.item :: done)

/-- Reads a set behind its opening bracket. -/
def readSet (mode : Mode) : Reader Pattern := do
  let negated ← Reader.accept '^'
  let items ← readMembers ((← get).rest.length + 1) []
  return .one ⟨items, negated, mode.folded, mode.alphabet⟩

/-- The condition on a place that a letter behind a backslash names. -/
def Mode.anchor? (m : Mode) : Char → Option Anchor
  | 'A' => some .textStart
  | 'Z' => some .textEnd
  | 'b' => some (.wordEdge m.alphabet)
  | 'B' => some (.noWordEdge m.alphabet)
  | _ => none

/-- A reference to a group, which must be closed. -/
def referTo (mode : Mode) (number : Nat) : Reader Pattern := do
  let groups := (← get).groups
  if groups.isClosed number && groups.mayName number then
    return .reference number mode.folded mode.alphabet
  else throw .malformed

/-- Reads the rest of an escape that starts with a digit other than zero: three octal digits write a
code point, one or two digits the number of a group. -/
def readNumber (mode : Mode) (first : Char) : Reader Pattern := do
  match ← Reader.takeUpTo 1 Text.isAsciiDigit with
  | [second] =>
    if isOctal first && isOctal second then
      match ← Reader.takeUpTo 1 isOctal with
      | [third] =>
        let n := octalNat [first, second, third]
        if n ≤ 0o377 then return mode.literal n else throw .malformed
      | _ => referTo mode (octalOrDecimal [first, second])
    else referTo mode (octalOrDecimal [first, second])
  | _ => referTo mode (octalOrDecimal [first])
where
  /-- The number that ASCII digits write. -/
  octalOrDecimal (digits : List Char) : Nat :=
    (Text.decimalNat? digits).getD 0

/-- Reads the rest of an escape outside of sets. -/
def readEscape (mode : Mode) (c : Char) : Reader Pattern := do
  match mode.anchor? c, namedClass? c with
  | some a, _ => return .anchor a
  | none, some (name, negated) => return mode.classed name negated
  | none, none =>
    if c == '0' then return mode.literal (octalNat (← Reader.takeUpTo 2 isOctal))
    else if Text.isAsciiDigit c then readNumber mode c
    else return mode.literal (← readCode c)

/-- Numbers of repetitions from here on are refused. -/
def repetitionLimit : Nat := 4294967295

/-- The number of repetitions that digits write, if there are any. -/
def readBound (digits : List Char) : Reader (Option Nat) := do
  match digits.isEmpty, Text.decimalNat? digits with
  | false, some n => if n < repetitionLimit then return some n else throw .repetitionTooLarge
  | _, _ => return none

/-- Reads the numbers of a repetition between braces; without the form of one, nothing is taken. -/
def readBraces : Reader (Option (Nat × Option Nat)) := do
  let before ← get
  if before.rest.head? == some (.plain '\x7d') then return none
  let low ← Reader.takeAll Text.isAsciiDigit
  let high ← if ← Reader.accept ',' then Reader.takeAll Text.isAsciiDigit else pure low
  if ← Reader.accept '\x7d' then
    let least := (← readBound low).getD 0
    let most ← readBound high
    if most.any (· < least) then throw .malformed
    return some (least, most)
  else
    set before
    return none

/-- Reads the numbers of a repetition behind its first character; nothing for a brace that stands for
itself. -/
def readBounds : Char → Reader (Option (Nat × Option Nat))
  | '*' => return some (0, none)
  | '+' => return some (1, none)
  | '?' => return some (0, some 1)
  | _ => readBraces

/-- Reads whether a repetition is to be lazy or possessive. -/
def readGreed : Reader Greed := do
  if ← Reader.accept '?' then return .lazy
  if ← Reader.accept '+' then return .possessive
  return .greedy

/-- A part repeated; a condition on a place and a repetition cannot be repeated. -/
def repeated? (least : Nat) (most : Option Nat) (greed : Greed) : Pattern → Option Pattern
  | .anchor _ => none
  | .repeat _ _ _ _ => none
  | p => some (.repeat least most greed p)

/-- The letters of flags. -/
def flagLetters : List Char :=
  ['a', 'i', 'L', 'm', 's', 'u', 't', 'x']

/-- The flags of a group. -/
inductive Flags where
  | global (on : List Char)
  | scoped (on off : List Char)

/-- Reads the flags that a group turns off, up to the colon. -/
def readOff : Reader (List Char) := do
  let letters ← Reader.takeAll flagLetters.contains
  Reader.expect ':'
  if letters.isEmpty || letters.any ['a', 'u', 'L', 't'].contains then throw .malformed
  return letters

/-- Reads flags, which may not ask for both alphabets. -/
def readFlags : Reader Flags := do
  let on ← Reader.takeAll flagLetters.contains
  if on.contains 'L' || (on.contains 'a' && on.contains 'u') then throw .malformed
  match ← Reader.demand with
  | .plain ')' => if on.isEmpty then throw .malformed else return .global on
  | .plain ':' => if on.isEmpty || on.contains 't' then throw .malformed else return .scoped on []
  | .plain '-' =>
    if on.contains 't' then throw .malformed
    let off ← readOff
    if off.any on.contains then throw .malformed
    return .scoped on off
  | _ => throw .malformed

/-- Takes a comment up to its closing parenthesis. -/
def skipComment : Reader Unit := do
  let s ← get
  match s.rest.dropWhile (· != .plain ')') with
  | _ :: rest => set { s with rest }
  | [] => throw .malformed

/-- Takes the rest of a line. -/
def skipLine : Reader Unit :=
  modify fun s => { s with rest := (s.rest.dropWhile (· != .plain '\n')).tail }

/-- A blank that a verbose pattern may hold anywhere. -/
def isSkipped (c : Char) : Bool :=
  Alphabet.ascii.isSpace c

/-- Whether a text can name a group: letters, digits and underscores, no digit first. -/
def isGroupName : List Char → Bool
  | [] => false
  | c :: rest => Text.isWord c && !Text.isDigitLike c && rest.all Text.isWord

end Pattern
end DocLint
