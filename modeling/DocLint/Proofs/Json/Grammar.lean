import DocLint.Json.Basic

/-!
# The grammar of JSON

What a text says in JSON (`Json.Says`), rule by rule: blanks may stand around every value and every mark, a number has
no needless zero in front and a digit on either side of its point, and a text between quotes has characters and
escapes. Half a surrogate pair is no character, so an escape of one alone says nothing. A number without a fraction and
an exponent is an integer and any other the floating-point number nearest to it.
-/
namespace DocLint.Json

/-! ### Numbers -/

/-- One digit or more. -/
structure Digits where
  chars : List Char
  nonempty : 0 < chars.length
  digit : ∀ c ∈ chars, c.isDigit = true

theorem Digits.chars_ne_nil (d : Digits) : d.chars ≠ [] :=
  List.ne_nil_of_length_pos d.nonempty

/-- The number that digits write. -/
def Digits.value (d : Digits) : Nat :=
  Nat.ofDigitChars 10 d.chars 0

/-- The sign in front of an exponent. -/
inductive Sign where
  | none
  | plus
  | minus

def Sign.chars : Sign → List Char
  | .none => []
  | .plus => ['+']
  | .minus => ['-']

def Sign.isMinus : Sign → Bool
  | .minus => true
  | _ => false

/-- The exponent of ten behind a number. -/
structure Exponent where
  letter : Char
  isLetter : letter = 'e' ∨ letter = 'E'
  sign : Sign
  digits : Digits

namespace Exponent

def chars (x : Exponent) : List Char :=
  x.letter :: (x.sign.chars ++ x.digits.chars)

def value (x : Exponent) : Int :=
  if x.sign.isMinus then -(x.digits.value : Int) else x.digits.value

end Exponent

/-- A number as it is written. -/
structure Numeral where
  negative : Bool
  whole : Digits
  leading : whole.chars.head? = some '0' → whole.chars = ['0']
  fraction : Option Digits
  exponent : Option Exponent

namespace Numeral

/-- The digits behind the point. -/
def fractionDigits (n : Numeral) : List Char :=
  n.fraction.elim [] Digits.chars

def fractionChars (n : Numeral) : List Char :=
  n.fraction.elim [] fun d => '.' :: d.chars

def exponentChars (n : Numeral) : List Char :=
  n.exponent.elim [] Exponent.chars

def chars (n : Numeral) : List Char :=
  (if n.negative then ['-'] else []) ++ (n.whole.chars ++ (n.fractionChars ++ n.exponentChars))

/-- The digits on both sides of the point as one number, and the power of ten to multiply it with. -/
def significand (n : Numeral) : Nat :=
  Nat.ofDigitChars 10 (n.whole.chars ++ n.fractionDigits) 0

def scale (n : Numeral) : Int :=
  n.exponent.elim 0 Exponent.value - n.fractionDigits.length

/-- What a number says. -/
def value (n : Numeral) : Json :=
  if n.fraction.isNone && n.exponent.isNone then .int (if n.negative then -(n.significand : Int) else n.significand)
  else .real (Binary64.ofDecimal n.negative n.significand n.scale)

end Numeral

/-! ### Texts -/

/-- The characters that have an escape of one letter, with the letter. -/
def shortEscapes : List (Char × Char) :=
  [('"', '"'), ('\\', '\\'), ('/', '/'), ('\x08', 'b'), ('\x0c', 'f'), ('\n', 'n'), ('\r', 'r'), ('\t', 't')]

/-- Four hexadecimal digits that write a unit of UTF-16. -/
def IsUnit (digits : List Char) (n : Nat) : Prop :=
  digits.length = 4 ∧ Text.hexNat? digits = some n

/-- The spellings of a character inside a text. -/
inductive SpellsChar (c : Char) : List Char → Prop where
  | plain (printed : 0x20 ≤ c.toNat) (quote : c ≠ '"') (backslash : c ≠ '\\') : SpellsChar c [c]
  | short {letter : Char} (is : (c, letter) ∈ shortEscapes) : SpellsChar c ['\\', letter]
  | unit {digits : List Char} (is : IsUnit digits c.toNat) : SpellsChar c ('\\' :: 'u' :: digits)
  | pair {high low : List Char} {h l : Nat} (isHigh : IsUnit high (0xD800 + h)) (isLow : IsUnit low (0xDC00 + l))
      (highSmall : h < 0x400) (lowSmall : l < 0x400) (is : c.toNat = 0x10000 + h * 0x400 + l) :
      SpellsChar c ('\\' :: 'u' :: (high ++ '\\' :: 'u' :: low))

/-- The spellings of characters one after the other. -/
inductive SpellsChars : List Char → List Char → Prop where
  | nil : SpellsChars [] []
  | cons {c : Char} {cs first rest : List Char} (char : SpellsChar c first) (onward : SpellsChars cs rest) :
      SpellsChars (c :: cs) (first ++ rest)

/-- The spellings of a text, between quotes. -/
inductive SpellsText (s : String) : List Char → Prop where
  | quoted {inner : List Char} (chars : SpellsChars s.toList inner) : SpellsText s ('"' :: (inner ++ ['"']))

/-! ### Values -/

/-- A blank. -/
def isBlank (c : Char) : Bool :=
  c == ' ' || c == '\t' || c == '\n' || c == '\r'

/-- Blanks, or nothing. -/
def AreBlank (cs : List Char) : Prop :=
  ∀ c ∈ cs, isBlank c = true

/-- What a part of a text says: a value, a value with blanks around it, the items between the brackets of an array, a
member of an object, the members between its braces. -/
inductive Part where
  | value (j : Json)
  | padded (j : Json)
  | items (js : List Json)
  | member (m : String × Json)
  | members (ms : List (String × Json))

/-- What the parts of a text say. -/
inductive Says : Part → List Char → Prop where
  | null : Says (.value .null) ['n', 'u', 'l', 'l']
  | trueWord : Says (.value (.bool true)) ['t', 'r', 'u', 'e']
  | falseWord : Says (.value (.bool false)) ['f', 'a', 'l', 's', 'e']
  | number (n : Numeral) : Says (.value n.value) n.chars
  | text {s : String} {cs : List Char} (spelled : SpellsText s cs) : Says (.value (.str s)) cs
  | noItems {cs : List Char} (blank : AreBlank cs) : Says (.value (.arr [])) ('[' :: (cs ++ [']']))
  | array {js : List Json} {cs : List Char} (items : Says (.items js) cs) : Says (.value (.arr js)) ('[' :: (cs ++ [']']))
  | noMembers {cs : List Char} (blank : AreBlank cs) : Says (.value (.obj [])) ('\x7b' :: (cs ++ ['\x7d']))
  | object {ms : List (String × Json)} {cs : List Char} (members : Says (.members ms) cs) :
      Says (.value (.obj ms)) ('\x7b' :: (cs ++ ['\x7d']))
  | padded {j : Json} {before cs after : List Char} (front : AreBlank before) (value : Says (.value j) cs)
      (back : AreBlank after) : Says (.padded j) (before ++ (cs ++ after))
  | lastItem {j : Json} {cs : List Char} (item : Says (.padded j) cs) : Says (.items [j]) cs
  | item {j : Json} {js : List Json} {cs rest : List Char} (item : Says (.padded j) cs) (onward : Says (.items js) rest) :
      Says (.items (j :: js)) (cs ++ ',' :: rest)
  | member {key : String} {j : Json} {before name after cs : List Char} (front : AreBlank before)
      (spelled : SpellsText key name) (back : AreBlank after) (value : Says (.padded j) cs) :
      Says (.member (key, j)) (before ++ (name ++ (after ++ ':' :: cs)))
  | lastMember {m : String × Json} {cs : List Char} (member : Says (.member m) cs) : Says (.members [m]) cs
  | members {m : String × Json} {ms : List (String × Json)} {cs rest : List Char} (member : Says (.member m) cs)
      (onward : Says (.members ms) rest) : Says (.members (m :: ms)) (cs ++ ',' :: rest)

/-- Whether a text is one of JSON that says a value. -/
def IsTextOf (s : String) (j : Json) : Prop :=
  Says (.padded j) s.toList

end DocLint.Json
