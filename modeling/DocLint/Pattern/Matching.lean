import DocLint.Pattern.Basic

/-!
# Matching patterns

A pattern is matched at a place by trying its ways in order, each followed by what has to come behind
it. A repetition goes on only from a place where its last round did not start, so every round but the
last moves ahead.
-/
namespace DocLint.Pattern

/-- The texts of the groups so far, as places, the latest first. -/
abbrev Captures := List (Nat × Nat × Nat)

/-- What has to come behind a part: given the place and the groups, the end of the whole. -/
abbrev Rest := Nat → Captures → Option (Nat × Captures)

/-- A way to match a part at a place. -/
abbrev Matcher := Nat → Captures → Rest → Option (Nat × Captures)

/-- Whether a character is before and behind a place is a word character; nothing at the ends of the
text. -/
def wordEdgeAt (a : Alphabet) (text : Array Char) (p : Nat) : Bool :=
  let before := 0 < p && (text[p - 1]?).any a.isWord
  let behind := (text[p]?).any a.isWord
  before != behind

/-- Whether a condition holds at a place. An empty text has neither word edges nor places without
one. -/
def anchorHolds (text : Array Char) (p : Nat) : Anchor → Bool
  | .textStart => p == 0
  | .textEnd => p == text.size
  | .lineStart => p == 0 || text[p - 1]? == some '\n'
  | .lineEnd => p == text.size || text[p]? == some '\n'
  | .lastLineEnd => p == text.size || (p + 1 == text.size && text[p]? == some '\n')
  | .wordEdge a => text.size != 0 && wordEdgeAt a text p
  | .noWordEdge a => text.size != 0 && !wordEdgeAt a text p

/-- Whether the characters from one place on are those from another, for a number of characters. -/
def sameCharsAt (folded : Bool) (a : Alphabet) (text : Array Char) (p q : Nat) : Nat → Bool
  | 0 => true
  | n + 1 =>
    match text[p]?, text[q]? with
    | some c, some d =>
      (c == d || (folded && a.lower c == a.lower d)) && sameCharsAt folded a text (p + 1) (q + 1) n
    | _, _ => false

/-- Matches a part a fixed number of times. -/
def exactly (body : Matcher) : Nat → Matcher
  | 0 => fun p caps k => k p caps
  | n + 1 => fun p caps k => body p caps fun p caps => exactly body n p caps k

/-- Whether another round may start at a place. -/
def mayRepeat (most : Option Nat) (last : Option Nat) (p : Nat) : Bool :=
  most != some 0 && last != some p

/-- Matches a part as often as possible first. The first argument bounds the number of rounds. -/
def greedily (body : Matcher) : Nat → Option Nat → Option Nat → Matcher
  | 0, _, _ => fun p caps k => k p caps
  | fuel + 1, most, last => fun p caps k =>
    if mayRepeat most last p then
      (body p caps fun q caps => greedily body fuel (most.map (· - 1)) (some p) q caps k).orElse
        fun _ => k p caps
    else k p caps

/-- Matches a part as seldom as possible first. -/
def lazily (body : Matcher) : Nat → Option Nat → Option Nat → Matcher
  | 0, _, _ => fun p caps k => k p caps
  | fuel + 1, most, last => fun p caps k =>
    (k p caps).orElse fun _ =>
      if mayRepeat most last p then
        body p caps fun q caps => lazily body fuel (most.map (· - 1)) (some p) q caps k
      else none

/-- Matches a part as often as possible, each time in its first way. -/
def possessively (body : Matcher) : Nat → Option Nat → Option Nat → Nat → Captures →
    Nat × Captures
  | 0, _, _, p, caps => (p, caps)
  | fuel + 1, most, last, p, caps =>
    if mayRepeat most last p then
      match body p caps fun q caps => some (q, caps) with
      | some (q, caps) => possessively body fuel (most.map (· - 1)) (some p) q caps
      | none => (p, caps)
    else (p, caps)

/-- Matches a pattern at a place of a text, followed by what has to come behind it. -/
def run (text : Array Char) : Pattern → Matcher
  | .empty => fun p caps k => k p caps
  | .one s => fun p caps k =>
    match text[p]? with
    | some c => if s.contains c then k (p + 1) caps else none
    | none => none
  | .seq a b => fun p caps k => run text a p caps fun p caps => run text b p caps k
  | .alt a b => fun p caps k => (run text a p caps k).orElse fun _ => run text b p caps k
  | .repeat least most greed body => fun p caps k =>
    let rounds := text.size + 2
    let more := most.map (· - least)
    match greed with
    | .greedy =>
      exactly (run text body) least p caps fun p caps =>
        greedily (run text body) rounds more none p caps k
    | .lazy =>
      exactly (run text body) least p caps fun p caps =>
        lazily (run text body) rounds more none p caps k
    | .possessive =>
      match exactly (atomically (run text body)) least p caps fun p caps => some (p, caps) with
      | some (p, caps) =>
        let (p, caps) := possessively (run text body) rounds more none p caps
        k p caps
      | none => none
  | .group number body => fun p caps k =>
    run text body p caps fun q caps => k q ((number, p, q) :: caps)
  | .plain body => run text body
  | .reference number folded a => fun p caps k =>
    match caps.lookup number with
    | some (start, stop) =>
      if sameCharsAt folded a text start p (stop - start) then k (p + (stop - start)) caps else none
    | none => none
  | .anchor a => fun p caps k => if anchorHolds text p a then k p caps else none
  | .ahead negated body => fun p caps k =>
    match run text body p caps fun q caps => some (q, caps) with
    | some (_, inner) => if negated then none else k p inner
    | none => if negated then k p caps else none
  | .behind negated width body => fun p caps k =>
    let found := if width ≤ p then run text body (p - width) caps fun q caps => some (q, caps)
      else none
    match found with
    | some (_, inner) => if negated then none else k p inner
    | none => if negated then k p caps else none
  | .atomic body => atomically (run text body)
  | .conditional number yes no => fun p caps k =>
    if (caps.lookup number).isSome then run text yes p caps k else run text no p caps k
where
  /-- Matches a part in its first way only. -/
  atomically (body : Matcher) : Matcher := fun p caps k =>
    match body p caps fun q caps => some (q, caps) with
    | some (q, caps) => k q caps
    | none => none

/-- Whether a pattern matches anywhere in a text. -/
def occursIn (pattern : Pattern) (text : String) : Bool :=
  let chars := text.toList.toArray
  (List.range (chars.size + 1)).any fun p =>
    (run chars pattern p [] fun q caps => some (q, caps)).isSome

/-- Whether a pattern matches at the start of a text. -/
def startsText (pattern : Pattern) (text : String) : Bool :=
  (run text.toList.toArray pattern 0 [] fun q caps => some (q, caps)).isSome

end DocLint.Pattern
