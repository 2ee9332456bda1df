import DocLint.Text.Blank
import DocLint.Text.Case
import DocLint.Text.Digit
import DocLint.Text.Word

/-!
# Patterns

Patterns for texts: sets of characters, alternatives, repetitions, groups that can be referred to, and
conditions on the surroundings of a place. How letters of the other case and characters beyond ASCII
count is settled when a pattern is read, so each part carries its own rule.
-/
namespace DocLint

namespace Pattern

/-- Which characters count as letters, digits and blanks, and which letters differ in case only. -/
inductive Alphabet where
  | unicode
  | ascii
  deriving DecidableEq, Inhabited

namespace Alphabet

/-- A decimal digit of an alphabet. -/
def isDigit : Alphabet → Char → Bool
  | .unicode, c => Text.isDecimal c
  | .ascii, c => Text.isAsciiDigit c

/-- A blank of an alphabet. -/
def isSpace : Alphabet → Char → Bool
  | .unicode, c => Text.isBlank c
  | .ascii, c => c == ' ' || (9 ≤ c.toNat && c.toNat ≤ 13)

/-- A letter, a number or the underscore of an alphabet. -/
def isWord : Alphabet → Char → Bool
  | .unicode, c => Text.isWord c
  | .ascii, c => c.isAlphanum || c == '_'

/-- The lower case of a character in an alphabet. -/
def lower : Alphabet → Char → Char
  | .unicode, c => Text.lower c
  | .ascii, c => c.toLower

/-- The lower-case letters that count as the given one. -/
def variants : Alphabet → Char → List Char
  | .unicode, c => Text.caseVariants c
  | .ascii, c => [c]

/-- The characters with the given lower case. -/
def ofLower : Alphabet → Char → List Char
  | .unicode, c => Text.ofLower c
  | .ascii, c => [c, c.toUpper]

end Alphabet

/-- A class of characters with a name of its own. -/
inductive CharClass where
  | digit
  | space
  | word
  deriving DecidableEq, Inhabited

/-- A member of a set of characters. Code points may be ones that no character has. -/
inductive SetItem where
  | range (low high : Nat)
  | named (c : CharClass) (negated : Bool)
  deriving DecidableEq, Inhabited

/-- A set of characters. With `folded`, letters of either case are in it when one of them is. -/
structure CharSet where
  items : List SetItem
  negated : Bool
  folded : Bool
  alphabet : Alphabet
  deriving DecidableEq, Inhabited

namespace CharSet

/-- Whether a character is of a class. -/
def ofClass (a : Alphabet) (c : Char) : CharClass → Bool
  | .digit => a.isDigit c
  | .space => a.isSpace c
  | .word => a.isWord c

/-- Whether an item holds a character. A range holds the characters whose lower case, or one that
counts as it, is the lower case of a member when letters of either case are in. -/
def holds (s : CharSet) (c : Char) : SetItem → Bool
  | .range low high =>
    let inRange (d : Char) : Bool := low ≤ d.toNat && d.toNat ≤ high
    if s.folded then
      (s.alphabet.variants (s.alphabet.lower c)).any fun d => (s.alphabet.ofLower d).any inRange
    else inRange c
  | .named name negated =>
    ofClass s.alphabet (if s.folded then s.alphabet.lower c else c) name != negated

/-- Whether a character is in a set. -/
def contains (s : CharSet) (c : Char) : Bool :=
  (s.items.any (s.holds c)) != s.negated

end CharSet

/-- A condition on a place in a text. -/
inductive Anchor where
  | textStart
  | textEnd
  | lineStart
  | lineEnd
  /-- The end of a text, or the place in front of a line feed that ends it. -/
  | lastLineEnd
  | wordEdge (a : Alphabet)
  | noWordEdge (a : Alphabet)
  deriving DecidableEq, Inhabited

/-- In which order a repetition tries its numbers. A possessive one takes what it can get and gives
nothing back. -/
inductive Greed where
  | greedy
  | lazy
  | possessive
  deriving DecidableEq, Inhabited

end Pattern

/-- A pattern. -/
inductive Pattern where
  | empty
  | one (s : Pattern.CharSet)
  | seq (first second : Pattern)
  | alt (first second : Pattern)
  | «repeat» (least : Nat) (most : Option Nat) (greed : Pattern.Greed) (body : Pattern)
  /-- A group whose text can be referred to by its number. -/
  | group (number : Nat) (body : Pattern)
  /-- A group without a number. -/
  | plain (body : Pattern)
  | reference (number : Nat) (folded : Bool) (alphabet : Pattern.Alphabet)
  | anchor (a : Pattern.Anchor)
  /-- What follows must match, or must not. -/
  | ahead (negated : Bool) (body : Pattern)
  /-- What precedes, of a fixed width, must match, or must not. -/
  | behind (negated : Bool) (width : Nat) (body : Pattern)
  /-- A part that is matched in its first way only. -/
  | atomic (body : Pattern)
  /-- One of two parts, by whether a group has matched. -/
  | conditional (number : Nat) (yes no : Pattern)
  deriving Inhabited

namespace Pattern

/-- The least and the greatest width of the texts that match; without a bound, no greatest. -/
structure Width where
  least : Nat
  most : Option Nat
  deriving DecidableEq, Inhabited

namespace Width

/-- The width of two parts in a row. -/
def append (a b : Width) : Width :=
  ⟨a.least + b.least, do return (← a.most) + (← b.most)⟩

/-- The width of one of two parts. -/
def either (a b : Width) : Width :=
  ⟨min a.least b.least, do return max (← a.most) (← b.most)⟩

/-- The width of a repetition. -/
def times (a : Width) (least : Nat) (most : Option Nat) : Width :=
  ⟨a.least * least,
    match a.most, most with
    | some 0, none => some 0
    | some m, some n => some (m * n)
    | _, _ => none⟩

end Width

/-- The width of a pattern, given those of the groups that it may refer to. -/
def width (groups : Nat → Width) : Pattern → Width
  | .empty => ⟨0, some 0⟩
  | .one _ => ⟨1, some 1⟩
  | .seq a b => (a.width groups).append (b.width groups)
  | .alt a b => (a.width groups).either (b.width groups)
  | .repeat least most _ body => (body.width groups).times least most
  | .group _ body => body.width groups
  | .plain body => body.width groups
  | .reference number _ _ => groups number
  | .anchor _ => ⟨0, some 0⟩
  | .ahead _ _ => ⟨0, some 0⟩
  | .behind _ _ _ => ⟨0, some 0⟩
  | .atomic body => body.width groups
  | .conditional _ yes no => (yes.width groups).either (no.width groups)

end Pattern
end DocLint
