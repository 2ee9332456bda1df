import DocLint.Text.Blank
import DocLint.Text.Lines

/-!
# Tags of plain scalars

The forms of plain scalars that stand for null, truth values, numbers, times and the two special keys.
A scalar of none of these forms is a text.
-/
namespace DocLint.Yaml.Schema

/-- The full tag of a standard type. -/
def standard (name : String) : String :=
  "tag:yaml.org,2002:" ++ name

/-- A digit of a decimal number. -/
def isDigit (c : Char) : Bool :=
  '0' ≤ c && c ≤ '9'

/-- A digit of a decimal number or an underscore between digits. -/
def isDigitOrGap (c : Char) : Bool :=
  isDigit c || c == '_'

/-- Characters without a sign at their start. -/
def withoutSign : List Char → List Char
  | '+' :: rest => rest
  | '-' :: rest => rest
  | cs => cs

/-- One of the words for a truth value. -/
def isTruthWord (s : String) : Bool :=
  ["yes", "Yes", "YES", "no", "No", "NO", "true", "True", "TRUE", "false", "False", "FALSE", "on",
    "On", "ON", "off", "Off", "OFF"].contains s

/-- One of the words for null; the empty text is one. -/
def isNullWord (s : String) : Bool :=
  ["", "~", "null", "Null", "NULL"].contains s

/-- A number below sixty of one or two digits. -/
def isSixtieth : List Char → Bool
  | [a] => isDigit a
  | [a, b] => '0' ≤ a && a ≤ '5' && isDigit b
  | _ => false

/-- The parts of characters between colons. -/
def splitColons (cs : List Char) : List (List Char) :=
  cs.foldr (fun c parts =>
    match parts with
    | part :: rest => if c == ':' then [] :: part :: rest else (c :: part) :: rest
    | [] => [[c]]) [[]]

/-- An integer: in base two, eight, ten or sixteen, or with parts below sixty behind colons. -/
def isInteger (cs : List Char) : Bool :=
  match withoutSign cs with
  | [] => false
  | '0' :: [] => true
  | '0' :: 'b' :: c :: rest => (c :: rest).all fun d => d == '0' || d == '1' || d == '_'
  | '0' :: 'x' :: c :: rest =>
    (c :: rest).all fun d => isDigitOrGap d || ('a' ≤ d && d ≤ 'f') || ('A' ≤ d && d ≤ 'F')
  | '0' :: rest => rest.all fun d => ('0' ≤ d && d ≤ '7') || d == '_'
  | c :: rest =>
    isDigit c &&
      match splitColons rest with
      | first :: parts => first.all isDigitOrGap && parts.all isSixtieth
      | [] => false

/-- Nothing, or an exponent with a sign. -/
def isExponentPart : List Char → Bool
  | [] => true
  | e :: sign :: c :: rest =>
    (e == 'e' || e == 'E') && (sign == '+' || sign == '-') && (c :: rest).all isDigit
  | _ => false

/-- A decimal fraction behind its point, with an optional exponent. -/
def isFraction (cs : List Char) : Bool :=
  isExponentPart (cs.dropWhile isDigitOrGap)

/-- A floating-point number: with a point, with a point and parts below sixty, or one of the words
for infinity and for what is no number. -/
def isFloat (cs : List Char) : Bool :=
  cs == ".nan".toList || cs == ".NaN".toList || cs == ".NAN".toList ||
    (let unsigned := withoutSign cs
     unsigned == ".inf".toList || unsigned == ".Inf".toList || unsigned == ".INF".toList ||
      (match unsigned with
      | c :: rest =>
        isDigit c &&
          (match rest.dropWhile isDigitOrGap with
          | '.' :: fraction => isFraction fraction
          | ':' :: parts =>
            let whole := parts.takeWhile (· != '.')
            match parts.dropWhile (· != '.') with
            | '.' :: fraction => (splitColons whole).all isSixtieth && fraction.all isDigitOrGap
            | _ => false
          | _ => false)
      | [] => false)) ||
    (match cs with
    | '.' :: c :: rest => isDigit c && isFraction rest
    | _ => false)

/-! ## Times -/

/-- The distance from universal time as it is written. -/
inductive ZoneText where
  | utc
  | offset (negative : Bool) (hours minutes : List Char)

/-- A time of day as it is written. -/
structure ClockText where
  hour : List Char
  minute : List Char
  second : List Char
  fraction : List Char
  zone : Option ZoneText

/-- A date as it is written, with an optional time of day. -/
structure TimeText where
  year : List Char
  month : List Char
  day : List Char
  clock : Option ClockText

/-- As many digits as there are up to a greatest number, but not fewer than a least one. -/
def digits? (least most : Nat) (cs : List Char) : Option (List Char × List Char) :=
  let run := (cs.take most).takeWhile isDigit
  if run.length < least then none else some (run, cs.drop run.length)

/-- The characters behind a given one. -/
def behind? (mark : Char) : List Char → Option (List Char)
  | [] => none
  | c :: rest => if c == mark then some rest else none

/-- A distance from universal time at the end of a time. -/
def zone? : List Char → Option ZoneText
  | ['Z'] => some .utc
  | sign :: rest =>
    if sign == '+' || sign == '-' then do
      let (hours, rest) ← digits? 1 2 rest
      let minutes ← match rest with
        | [] => some []
        | ':' :: rest => (digits? 2 2 rest).bind fun (m, rest) => if rest.isEmpty then some m else none
        | _ => none
      return .offset (sign == '-') hours minutes
    else none
  | [] => none

/-- A space or a tab. -/
def isSpaceOrTab (c : Char) : Bool :=
  c == ' ' || c == '\t'

/-- A time of day at the end of a time. -/
def clock? (cs : List Char) : Option ClockText := do
  let (hour, rest) ← digits? 1 2 cs
  let (minute, rest) ← (behind? ':' rest).bind (digits? 2 2)
  let (second, rest) ← (behind? ':' rest).bind (digits? 2 2)
  let (fraction, rest) := match rest with
    | '.' :: rest => (rest.takeWhile isDigit, rest.dropWhile isDigit)
    | rest => ([], rest)
  if rest.isEmpty then return ⟨hour, minute, second, fraction, none⟩
  else return ⟨hour, minute, second, fraction, some (← zone? (rest.dropWhile isSpaceOrTab))⟩

/-- A date and an optional time of day behind the letter T or blanks. -/
def time? (cs : List Char) : Option TimeText := do
  let (year, rest) ← digits? 4 4 cs
  let (month, rest) ← (behind? '-' rest).bind (digits? 1 2)
  let (day, rest) ← (behind? '-' rest).bind (digits? 1 2)
  match rest with
  | [] => return ⟨year, month, day, none⟩
  | c :: rest =>
    if c == 'T' || c == 't' then return ⟨year, month, day, some (← clock? rest)⟩
    else if isSpaceOrTab c then
      return ⟨year, month, day, some (← clock? (rest.dropWhile isSpaceOrTab))⟩
    else none

/-- A time that needs no tag: a date without a time of day has all its digits. -/
def isTime (cs : List Char) : Bool :=
  match time? cs with
  | some t => t.clock.isSome || (t.month.length == 2 && t.day.length == 2)
  | none => false

/-- The tag of a scalar by its form. One line feed behind the form is overlooked. -/
def plainTag (s : String) : String :=
  let cs := Text.withoutFinalNewline s.toList
  let form := String.ofList cs
  standard <|
    if isTruthWord form then "bool"
    else if isFloat cs then "float"
    else if isInteger cs then "int"
    else if form == "<<" then "merge"
    else if isNullWord form && s != "\n" then "null"
    else if isTime cs then "timestamp"
    else if form == "=" then "value"
    else if ["!", "&", "*"].contains form then "yaml"
    else "str"

end DocLint.Yaml.Schema
