import DocLint.Proofs.Json.Grammar
import DocLint.Proofs.Lists

/-!
# Reading JSON

A reader of JSON texts that goes from left to right (`Json.read?`). Whatever a text says by the grammar the reader gives
(`Json.read?_of_isTextOf`), so no text says two things, and what the reader refuses is no JSON.
-/
namespace DocLint.Json

/-! ### The reader -/

/-- What is read from the four hexadecimal digits of a unit of UTF-16, and the rest. -/
def unit? (cs : List Char) : Option (Nat × List Char) :=
  if (cs.take 4).length = 4 then (Text.hexNat? (cs.take 4)).map fun n => (n, cs.drop 4) else none

/-- The second unit of a surrogate pair whose first one is given. -/
def pair? (h : Nat) : List Char → Option (Char × List Char)
  | '\\' :: 'u' :: cs =>
    match unit? cs with
    | some (n, rest) =>
      if 0xDC00 ≤ n ∧ n < 0xE000 then some (Char.ofNat (0x10000 + h * 0x400 + (n - 0xDC00)), rest) else none
    | none => none
  | _ => none

/-- The first character of a text between quotes. -/
def char? : List Char → Option (Char × List Char)
  | [] => none
  | '\\' :: cs =>
    match cs with
    | [] => none
    | 'u' :: cs =>
      match unit? cs with
      | some (n, rest) =>
        if 0xD800 ≤ n ∧ n < 0xDC00 then pair? (n - 0xD800) rest
        else if 0xDC00 ≤ n ∧ n < 0xE000 then none
        else some (Char.ofNat n, rest)
      | none => none
    | letter :: cs => (shortEscapes.find? fun e => e.2 == letter).map fun e => (e.1, cs)
  | c :: cs => if c = '"' ∨ c.toNat < 0x20 then none else some (c, cs)

/-- The characters up to the closing quote. -/
def chars? : Nat → List Char → Option (List Char × List Char)
  | _, '"' :: rest => some ([], rest)
  | 0, _ => none
  | fuel + 1, cs =>
    match char? cs with
    | some (c, rest) => (chars? fuel rest).map fun r => (c :: r.1, r.2)
    | none => none

/-- The exponent behind the digits of a number: nothing, or a letter and an integer. -/
def exponent? : List Char → Option (Option Int)
  | [] => some none
  | letter :: cs =>
    let (negative, digits) := Binary64.takeSign cs
    if (letter = 'e' ∨ letter = 'E') ∧ digits ≠ [] ∧ digits.all Char.isDigit then
      let n := Nat.ofDigitChars 10 digits 0
      some (some (if negative then -(n : Int) else n))
    else none

/-- The digits behind a point, if there is one, and the rest. -/
def fraction? : List Char → Option (List Char) × List Char
  | '.' :: cs => (some (cs.takeWhile Char.isDigit), cs.dropWhile Char.isDigit)
  | cs => (none, cs)

/-- A number without its sign. -/
def unsigned? (negative : Bool) (cs : List Char) : Option Json :=
  let whole := cs.takeWhile Char.isDigit
  let (fraction, rest) := fraction? (cs.dropWhile Char.isDigit)
  if whole = [] ∨ (whole.head? = some '0' ∧ whole ≠ ['0']) ∨ fraction = some [] then none
  else
    match exponent? rest with
    | none => none
    | some exponent =>
      let significand := Nat.ofDigitChars 10 (whole ++ fraction.getD []) 0
      if fraction.isNone && exponent.isNone then some (.int (if negative then -(significand : Int) else significand))
      else
        some (.real (Binary64.ofDecimal negative significand (exponent.getD 0 - (fraction.getD []).length)))

/-- A number. -/
def number? : List Char → Option Json
  | '-' :: cs => unsigned? true cs
  | cs => unsigned? false cs

/-- A word or a number. -/
def atom? (cs : List Char) : Option Json :=
  if cs = ['n', 'u', 'l', 'l'] then some .null
  else if cs = ['t', 'r', 'u', 'e'] then some (.bool true)
  else if cs = ['f', 'a', 'l', 's', 'e'] then some (.bool false)
  else number? cs

/-- A character of a word or a number. -/
def isAtomChar (c : Char) : Bool :=
  c.isAlphanum || c == '-' || c == '+' || c == '.'

/-- What follows the blanks. -/
def afterBlanks (cs : List Char) : List Char :=
  cs.dropWhile isBlank

/-- A text between quotes. -/
def text? (fuel : Nat) : List Char → Option (String × List Char)
  | '"' :: cs => (chars? fuel cs).map fun r => (String.ofList r.1, r.2)
  | _ => none

/-- The colon behind a name, and the rest. -/
def afterColon? (cs : List Char) : Option (List Char) :=
  match afterBlanks cs with
  | ':' :: rest => some rest
  | _ => none

/-- The name of a member with the blanks around it and the colon, and the rest. -/
def name? (fuel : Nat) (cs : List Char) : Option (String × List Char) :=
  match text? fuel (afterBlanks cs) with
  | none => none
  | some (name, rest) => (afterColon? rest).map fun rest => (name, rest)

mutual

/-- The value at the start, and the rest. -/
def value? : Nat → List Char → Option (Json × List Char)
  | 0, _ => none
  | fuel + 1, '"' :: cs => (text? fuel ('"' :: cs)).map fun r => (.str r.1, r.2)
  | fuel + 1, '[' :: cs =>
    match afterBlanks cs with
    | ']' :: rest => some (.arr [], rest)
    | _ => (items? fuel cs).map fun r => (.arr r.1, r.2)
  | fuel + 1, '\x7b' :: cs =>
    match afterBlanks cs with
    | '\x7d' :: rest => some (.obj [], rest)
    | _ => (members? fuel cs).map fun r => (.obj r.1, r.2)
  | _ + 1, cs => (atom? (cs.takeWhile isAtomChar)).map fun j => (j, cs.dropWhile isAtomChar)

/-- The items of an array and what follows its closing bracket. -/
def items? : Nat → List Char → Option (List Json × List Char)
  | 0, _ => none
  | fuel + 1, cs =>
    match value? fuel (afterBlanks cs) with
    | none => none
    | some (j, rest) =>
      match afterBlanks rest with
      | ',' :: rest => (items? fuel rest).map fun r => (j :: r.1, r.2)
      | ']' :: rest => some ([j], rest)
      | _ => none

/-- The members of an object and what follows its closing brace. -/
def members? : Nat → List Char → Option (List (String × Json) × List Char)
  | 0, _ => none
  | fuel + 1, cs =>
    match member? fuel cs with
    | none => none
    | some (m, rest) =>
      match rest with
      | ',' :: rest => (members? fuel rest).map fun r => (m :: r.1, r.2)
      | '\x7d' :: rest => some ([m], rest)
      | _ => none

/-- A member of an object with the blanks around it, and the rest. -/
def member? : Nat → List Char → Option ((String × Json) × List Char)
  | 0, _ => none
  | fuel + 1, cs =>
    match name? fuel cs with
    | none => none
    | some (key, rest) => (value? fuel (afterBlanks rest)).map fun r => ((key, r.1), afterBlanks r.2)

end

/-- What a text says in JSON. -/
def read? (s : String) : Option Json :=
  match value? (2 * s.toList.length) (afterBlanks s.toList) with
  | some (j, rest) => if afterBlanks rest = [] then some j else none
  | none => none

/-! ### What a value starts with -/

theorem value?_quote (fuel : Nat) (cs : List Char) :
    value? (fuel + 1) ('"' :: cs) = (text? fuel ('"' :: cs)).map fun r => (.str r.1, r.2) :=
  rfl

theorem value?_bracket (fuel : Nat) (cs : List Char) :
    value? (fuel + 1) ('[' :: cs) =
      match afterBlanks cs with
      | ']' :: rest => some (.arr [], rest)
      | _ => (items? fuel cs).map fun r => (.arr r.1, r.2) :=
  rfl

theorem value?_brace (fuel : Nat) (cs : List Char) :
    value? (fuel + 1) ('\x7b' :: cs) =
      match afterBlanks cs with
      | '\x7d' :: rest => some (.obj [], rest)
      | _ => (members? fuel cs).map fun r => (.obj r.1, r.2) :=
  rfl

/-! ### Characters of a text -/

theorem unit?_of_isUnit {digits : List Char} {n : Nat} (is : IsUnit digits n) (rest : List Char) :
    unit? (digits ++ rest) = some (n, rest) := by
  obtain ⟨four, number⟩ := is
  rw [unit?, ← four, List.take_left, List.drop_left, if_pos rfl, number]
  rfl

theorem char?_of_spells {c : Char} {first : List Char} (spelled : SpellsChar c first) (rest : List Char) :
    char? (first ++ rest) = some (c, rest) := by
  cases spelled with
  | plain printed quote backslash =>
    have other : ¬ (c = '"' ∨ c.toNat < 0x20) := by
      rintro (is | low)
      · exact quote is
      · omega
    rw [List.singleton_append, char?]
    · rw [if_neg other]
    · exact backslash
  | short is =>
    simp only [shortEscapes, List.mem_cons, Prod.mk.injEq, List.not_mem_nil, or_false] at is
    rcases is with ⟨rfl, rfl⟩ | ⟨rfl, rfl⟩ | ⟨rfl, rfl⟩ | ⟨rfl, rfl⟩ | ⟨rfl, rfl⟩ | ⟨rfl, rfl⟩ | ⟨rfl, rfl⟩ |
      ⟨rfl, rfl⟩ <;> rfl
  | unit is =>
    have scalar := c.valid
    change c.toNat < 0xD800 ∨ 0xDFFF < c.toNat ∧ c.toNat < 0x110000 at scalar
    rw [List.cons_append, List.cons_append, char?, unit?_of_isUnit is]
    dsimp only
    rw [if_neg (by omega), if_neg (by omega), Char.ofNat_toNat]
  | @pair high low h l isHigh isLow highSmall lowSmall is =>
    rw [List.cons_append, List.cons_append, List.append_assoc, List.cons_append, List.cons_append, char?,
      unit?_of_isUnit isHigh]
    dsimp only
    rw [if_pos (by omega), pair?, unit?_of_isUnit isLow]
    dsimp only
    rw [if_pos (by omega), Nat.add_sub_cancel_left, Nat.add_sub_cancel_left, ← is, Char.ofNat_toNat]

/-- The spelling of a character does not start with a quote. -/
theorem SpellsChar.starts {c : Char} {first : List Char} (spelled : SpellsChar c first) :
    ∃ d rest, first = d :: rest ∧ d ≠ '"' := by
  cases spelled with
  | plain printed quote backslash => exact ⟨c, [], rfl, quote⟩
  | short is => exact ⟨'\\', _, rfl, by decide⟩
  | unit is => exact ⟨'\\', _, rfl, by decide⟩
  | pair isHigh isLow highSmall lowSmall is => exact ⟨'\\', _, rfl, by decide⟩

theorem chars?_quote (fuel : Nat) (rest : List Char) : chars? fuel ('"' :: rest) = some ([], rest) := by
  cases fuel <;> rfl

theorem chars?_of_spells {cs inner : List Char} (spelled : SpellsChars cs inner) {fuel : Nat}
    (enough : inner.length ≤ fuel) (rest : List Char) : chars? fuel (inner ++ '"' :: rest) = some (cs, rest) := by
  induction spelled generalizing fuel with
  | nil => exact chars?_quote fuel rest
  | @cons c cs first onward char spelled ih =>
    obtain ⟨d, tail, rfl, other⟩ := char.starts
    rw [List.length_append, List.length_cons] at enough
    obtain ⟨fuel, rfl⟩ : ∃ k, fuel = k + 1 := ⟨fuel - 1, by omega⟩
    have read := char?_of_spells char (onward ++ '"' :: rest)
    rw [List.append_assoc]
    rw [List.cons_append] at read ⊢
    rw [chars?, read]
    · dsimp only
      rw [ih (by omega)]
      rfl
    · exact fun _ same => other (List.cons.inj same).1

/-! ### Numbers -/

theorem isDigit_letter {c : Char} (letter : c = 'e' ∨ c = 'E') : c.isDigit = false := by
  rcases letter with rfl | rfl <;> rfl

theorem takeSign_chars (x : Exponent) :
    Binary64.takeSign (x.sign.chars ++ x.digits.chars) = (x.sign.isMinus, x.digits.chars) := by
  cases x.sign with
  | plus => rfl
  | minus => rfl
  | none =>
    obtain ⟨chars, nonempty, digit⟩ := x.digits
    cases chars with
    | nil => exact absurd nonempty (Nat.lt_irrefl 0)
    | cons c cs =>
      have isDigit := digit c List.mem_cons_self
      change Binary64.takeSign (c :: cs) = (Bool.false, c :: cs)
      unfold Binary64.takeSign
      split
      next same =>
        rw [(List.cons.inj same).1] at isDigit
        cases isDigit
      next same =>
        rw [(List.cons.inj same).1] at isDigit
        cases isDigit
      next => rfl

theorem exponent?_of_exponent (n : Numeral) : exponent? n.exponentChars = some (n.exponent.map Exponent.value) := by
  unfold Numeral.exponentChars
  cases n.exponent with
  | none => rfl
  | some x =>
    have digits : x.digits.chars.all Char.isDigit = true := List.all_eq_true.mpr x.digits.digit
    change exponent? (x.letter :: (x.sign.chars ++ x.digits.chars)) = _
    rw [exponent?, takeSign_chars]
    dsimp only
    rw [if_pos ⟨x.isLetter, x.digits.chars_ne_nil, digits⟩]
    rfl

/-- Behind digits an exponent stands, or nothing. -/
theorem exponentChars_stops (n : Numeral) : ∀ c, n.exponentChars.head? = some c → c.isDigit = false := by
  unfold Numeral.exponentChars
  cases n.exponent with
  | none => nofun
  | some x =>
    intro c same
    cases same
    exact isDigit_letter x.isLetter

theorem fraction?_of_fraction (n : Numeral) :
    fraction? (n.fractionChars ++ n.exponentChars) = (n.fraction.map Digits.chars, n.exponentChars) := by
  unfold Numeral.fractionChars
  cases n.fraction with
  | none =>
    unfold Numeral.exponentChars
    cases n.exponent with
    | none => rfl
    | some x =>
      change fraction? (x.letter :: (x.sign.chars ++ x.digits.chars)) = (none, x.letter :: (x.sign.chars ++ x.digits.chars))
      rcases x.isLetter with is | is <;> rw [is] <;> rfl
  | some d =>
    obtain ⟨taken, left⟩ := takeWhile_append_of_stops d.digit (exponentChars_stops n)
    change (some ((d.chars ++ n.exponentChars).takeWhile _), (d.chars ++ n.exponentChars).dropWhile _) = _
    rw [taken, left]
    rfl

theorem fractionChars_stops (n : Numeral) :
    ∀ c, (n.fractionChars ++ n.exponentChars).head? = some c → c.isDigit = false := by
  unfold Numeral.fractionChars
  cases n.fraction with
  | none => exact exponentChars_stops n
  | some d =>
    intro c same
    cases same
    rfl

theorem unsigned?_of_numeral (n : Numeral) :
    unsigned? n.negative (n.whole.chars ++ (n.fractionChars ++ n.exponentChars)) = some n.value := by
  obtain ⟨taken, left⟩ := takeWhile_append_of_stops n.whole.digit (fractionChars_stops n)
  have allowed : ¬ (n.whole.chars = [] ∨ (n.whole.chars.head? = some '0' ∧ n.whole.chars ≠ ['0']) ∨
      n.fraction.map Digits.chars = some []) := by
    rintro (none | ⟨zero, more⟩ | none)
    · exact n.whole.chars_ne_nil none
    · exact more (n.leading zero)
    · obtain ⟨d, -, none⟩ := Option.map_eq_some_iff.mp none
      exact d.chars_ne_nil none
  unfold unsigned?
  dsimp only
  rw [taken, left, fraction?_of_fraction]
  dsimp only
  rw [if_neg allowed, exponent?_of_exponent]
  unfold Numeral.value Numeral.significand Numeral.scale Numeral.fractionDigits
  cases n.fraction <;> cases n.exponent <;> rfl

/-- A number starts with a digit behind its sign. -/
theorem Numeral.digit_first (n : Numeral) : ∃ c cs, n.whole.chars = c :: cs ∧ c.isDigit = true := by
  obtain ⟨c, cs, whole⟩ := List.exists_cons_of_ne_nil n.whole.chars_ne_nil
  exact ⟨c, cs, whole, n.whole.digit c (whole ▸ List.mem_cons_self)⟩

theorem number?_of_numeral (n : Numeral) : number? n.chars = some n.value := by
  have read := unsigned?_of_numeral n
  unfold Numeral.chars
  cases sign : n.negative with
  | true =>
    rw [sign] at read
    exact read
  | false =>
    rw [sign] at read
    obtain ⟨c, cs, whole, digit⟩ := n.digit_first
    rw [whole] at read ⊢
    change number? (c :: (cs ++ _)) = _
    rw [number?]
    · exact read
    · intro _ same
      rw [(List.cons.inj same).1] at digit
      cases digit

/-! ### Words and numbers -/

theorem isAtomChar_of_isDigit {c : Char} (digit : c.isDigit = true) : isAtomChar c = true := by
  simp [isAtomChar, Char.isAlphanum, digit]

theorem Sign.mem_chars {s : Sign} {c : Char} (member : c ∈ s.chars) : c ∈ ['-', '+', '.', 'e', 'E'] := by
  cases s with
  | none => exact absurd member List.not_mem_nil
  | plus =>
    rw [List.mem_singleton.mp member]
    decide
  | minus =>
    rw [List.mem_singleton.mp member]
    decide

theorem Exponent.mem_chars {x : Exponent} {c : Char} (member : c ∈ x.chars) :
    c.isDigit = true ∨ c ∈ ['-', '+', '.', 'e', 'E'] := by
  rcases List.mem_cons.mp member with rfl | inside
  · right
    rcases x.isLetter with is | is <;> rw [is] <;> decide
  · rcases List.mem_append.mp inside with sign | digit
    · exact .inr (Sign.mem_chars sign)
    · exact .inl (x.digits.digit c digit)

/-- A number has digits and a few marks. -/
theorem Numeral.mem_chars {n : Numeral} {c : Char} (member : c ∈ n.chars) :
    c.isDigit = true ∨ c ∈ ['-', '+', '.', 'e', 'E'] := by
  unfold Numeral.chars Numeral.fractionChars Numeral.exponentChars at member
  rcases List.mem_append.mp member with sign | member
  · right
    split at sign
    · rw [List.mem_singleton.mp sign]
      decide
    · exact absurd sign List.not_mem_nil
  · rcases List.mem_append.mp member with whole | member
    · exact .inl (n.whole.digit c whole)
    · rcases List.mem_append.mp member with fraction | exponent
      · cases has : n.fraction with
        | none =>
          rw [has] at fraction
          exact absurd fraction List.not_mem_nil
        | some d =>
          rw [has] at fraction
          rcases List.mem_cons.mp fraction with rfl | digit
          · exact .inr (by decide)
          · exact .inl (d.digit c digit)
      · cases has : n.exponent with
        | none =>
          rw [has] at exponent
          exact absurd exponent List.not_mem_nil
        | some x =>
          rw [has] at exponent
          exact x.mem_chars exponent

theorem isAtomChar_of_numeral (n : Numeral) : ∀ c ∈ n.chars, isAtomChar c = true := by
  intro c member
  rcases n.mem_chars member with digit | mark
  · exact isAtomChar_of_isDigit digit
  · simp only [List.mem_cons, List.not_mem_nil, or_false] at mark
    rcases mark with rfl | rfl | rfl | rfl | rfl <;> decide

/-- A number starts with its sign or with a digit. -/
theorem Numeral.starts (n : Numeral) : ∃ c cs, n.chars = c :: cs ∧ (c = '-' ∨ c.isDigit = true) := by
  obtain ⟨c, cs, whole, digit⟩ := n.digit_first
  unfold Numeral.chars
  split
  · exact ⟨'-', _, rfl, .inl rfl⟩
  · rw [whole]
    exact ⟨c, _, rfl, .inr digit⟩

theorem atom?_of_numeral (n : Numeral) : atom? n.chars = some n.value := by
  obtain ⟨c, cs, chars, start⟩ := n.starts
  have other {d : Char} {ds : List Char} (letter : d ≠ '-') (letter' : d.isDigit = false) : n.chars ≠ d :: ds := by
    rw [chars]
    intro same
    rw [(List.cons.inj same).1] at start
    rcases start with is | is
    · exact letter is
    · rw [letter'] at is
      cases is
  rw [atom?, if_neg (other (by decide) rfl), if_neg (other (by decide) rfl), if_neg (other (by decide) rfl)]
  exact number?_of_numeral n

/-- What follows a word or a number does not go on with it. -/
def Ends (rest : List Char) : Prop :=
  ∀ c, rest.head? = some c → isAtomChar c = false

theorem value?_of_atom {j : Json} {cs : List Char} (nonempty : cs ≠ []) (all : ∀ c ∈ cs, isAtomChar c = true)
    (is : atom? cs = some j) {fuel : Nat} (some : 0 < fuel) {rest : List Char} (ends : Ends rest) :
    value? fuel (cs ++ rest) = .some (j, rest) := by
  obtain ⟨taken, left⟩ := takeWhile_append_of_stops all ends
  obtain ⟨c, tail, rfl⟩ := List.exists_cons_of_ne_nil nonempty
  have first := all c List.mem_cons_self
  have other {d : Char} (mark : isAtomChar d = false) (tail' : List Char) : c :: (tail ++ rest) ≠ d :: tail' := by
    intro same
    rw [(List.cons.inj same).1, mark] at first
    cases first
  obtain ⟨fuel, rfl⟩ : ∃ k, fuel = k + 1 := ⟨fuel - 1, by omega⟩
  rw [List.cons_append] at taken left ⊢
  rw [value?, taken, left, is]
  · rfl
  · exact other rfl
  · exact other rfl
  · exact other rfl

/-! ### Values -/

/-- A blank or what closes an array or an object, with which no value starts. -/
def isOutside (c : Char) : Bool :=
  isBlank c || c == ']' || c == '\x7d'

theorem afterBlanks_append {before rest : List Char} (blank : AreBlank before)
    (stops : ∀ c, rest.head? = some c → isBlank c = false) : afterBlanks (before ++ rest) = rest :=
  (takeWhile_append_of_stops blank stops).2

theorem isOutside_of_isAtomChar {c : Char} (inside : isAtomChar c = true) : isOutside c = false := by
  unfold isOutside isBlank
  by_contra outside
  simp only [Bool.not_eq_false, Bool.or_eq_true, beq_iff_eq] at outside
  rcases outside with ((((rfl | rfl) | rfl) | rfl) | rfl) | rfl <;> cases inside

theorem Says.starts {j : Json} {cs : List Char} (said : Says (.value j) cs) :
    ∃ c tail, cs = c :: tail ∧ isOutside c = false := by
  cases said with
  | null => exact ⟨_, _, rfl, by decide⟩
  | trueWord => exact ⟨_, _, rfl, by decide⟩
  | falseWord => exact ⟨_, _, rfl, by decide⟩
  | number n =>
    obtain ⟨c, tail, chars, -⟩ := n.starts
    exact ⟨c, tail, chars, isOutside_of_isAtomChar (isAtomChar_of_numeral n c (chars ▸ List.mem_cons_self))⟩
  | text spelled =>
    cases spelled
    exact ⟨_, _, rfl, by decide⟩
  | noItems => exact ⟨_, _, rfl, by decide⟩
  | array => exact ⟨_, _, rfl, by decide⟩
  | noMembers => exact ⟨_, _, rfl, by decide⟩
  | object => exact ⟨_, _, rfl, by decide⟩

/-- Behind blanks a part goes on with what closes nothing. -/
def Opens (cs : List Char) : Prop :=
  ∃ c tail, isOutside c = false ∧ ∀ rest, afterBlanks (cs ++ rest) = c :: (tail ++ rest)

theorem opens_of_starts {before : List Char} {c : Char} (blank : AreBlank before) (inside : isOutside c = false)
    (tail : List Char) : Opens (before ++ c :: tail) := by
  refine ⟨c, tail, inside, fun rest => ?_⟩
  rw [List.append_assoc]
  refine afterBlanks_append blank fun d same => ?_
  cases same
  simp only [isOutside, Bool.or_eq_false_iff] at inside
  exact inside.1.1

theorem Opens.append {cs : List Char} (opens : Opens cs) (more : List Char) : Opens (cs ++ more) := by
  obtain ⟨c, tail, inside, after⟩ := opens
  refine ⟨c, tail ++ more, inside, fun rest => ?_⟩
  rw [List.append_assoc, after, List.append_assoc]

theorem Says.padded_opens {j : Json} {cs : List Char} (said : Says (.padded j) cs) : Opens cs := by
  cases said with
  | padded front value back =>
    obtain ⟨c, tail, rfl, inside⟩ := value.starts
    exact opens_of_starts front inside _

theorem Says.items_opens {js : List Json} {cs : List Char} (said : Says (.items js) cs) : Opens cs := by
  cases said with
  | lastItem item => exact item.padded_opens
  | item item onward => exact item.padded_opens.append _

theorem Says.member_opens {m : String × Json} {cs : List Char} (said : Says (.member m) cs) : Opens cs := by
  cases said with
  | member front spelled back value =>
    cases spelled
    exact opens_of_starts front (by decide) _

theorem Says.members_opens {ms : List (String × Json)} {cs : List Char} (said : Says (.members ms) cs) : Opens cs := by
  cases said with
  | lastMember member => exact member.member_opens
  | members member onward => exact member.member_opens.append _

/-- What follows a value with blanks around it goes on with neither. -/
def Stops (rest : List Char) : Prop :=
  ∀ c, rest.head? = some c → isAtomChar c = false ∧ isBlank c = false

theorem stops_nil : Stops [] :=
  nofun

theorem stops_cons {c : Char} (atom : isAtomChar c = false) (blank : isBlank c = false) (rest : List Char) :
    Stops (c :: rest) := by
  intro d same
  cases same
  exact ⟨atom, blank⟩

theorem ends_of_blanks {after rest : List Char} (blank : AreBlank after) (stops : Stops rest) : Ends (after ++ rest) := by
  intro c same
  cases after with
  | nil => exact (stops c same).1
  | cons d after =>
    cases same
    have blank := blank c List.mem_cons_self
    by_contra inside
    have outside := isOutside_of_isAtomChar (Bool.not_eq_false _ ▸ inside)
    simp [isOutside, blank] at outside

/-- What the reader gives for a part of a text, whatever follows it. The reader goes one step down for each character at
least, and twice for an item. -/
def IsReadAs : Part → List Char → Prop
  | .value j, cs => ∀ fuel rest, 2 * cs.length ≤ fuel → Ends rest → value? fuel (cs ++ rest) = some (j, rest)
  | .padded j, cs => ∀ fuel rest, 2 * cs.length ≤ fuel → Stops rest →
      ∃ back, value? fuel (afterBlanks (cs ++ rest)) = some (j, back) ∧ afterBlanks back = rest
  | .items js, cs => ∀ fuel rest, 2 * cs.length + 1 ≤ fuel → items? fuel (cs ++ ']' :: rest) = some (js, rest)
  | .member m, cs => ∀ fuel rest, 2 * cs.length ≤ fuel → Stops rest → member? fuel (cs ++ rest) = some (m, rest)
  | .members ms, cs => ∀ fuel rest, 2 * cs.length + 1 ≤ fuel → members? fuel (cs ++ '\x7d' :: rest) = some (ms, rest)

theorem text?_of_spells {s : String} {cs : List Char} (spelled : SpellsText s cs) {fuel : Nat} (enough : cs.length ≤ fuel)
    (rest : List Char) : text? fuel (cs ++ rest) = some (s, rest) := by
  cases spelled with
  | @quoted inner chars =>
    rw [List.length_cons, List.length_append] at enough
    rw [List.cons_append, List.append_assoc, List.singleton_append, text?, chars?_of_spells chars (by omega),
      Option.map_some, String.ofList_toList]

theorem value?_of_text {s : String} {cs : List Char} (spelled : SpellsText s cs) {fuel : Nat} (enough : cs.length < fuel)
    (rest : List Char) : value? fuel (cs ++ rest) = some (.str s, rest) := by
  obtain ⟨fuel, rfl⟩ : ∃ k, fuel = k + 1 := ⟨fuel - 1, by omega⟩
  have read : text? fuel (cs ++ rest) = some (s, rest) := text?_of_spells spelled (by omega) rest
  cases spelled with
  | @quoted inner chars =>
    rw [List.cons_append] at read ⊢
    rw [value?_quote, read]
    rfl

theorem name?_of_spells {key : String} {before name after : List Char} (front : AreBlank before)
    (spelled : SpellsText key name) (back : AreBlank after) {fuel : Nat} (enough : name.length ≤ fuel) (rest : List Char) :
    name? fuel (before ++ (name ++ (after ++ ':' :: rest))) = some (key, rest) := by
  have read := text?_of_spells spelled enough (after ++ ':' :: rest)
  have colon : afterColon? (after ++ ':' :: rest) = some rest := by
    rw [afterColon?, afterBlanks_append back fun c same => by cases same; decide]
    rfl
  have start : afterBlanks (before ++ (name ++ (after ++ ':' :: rest))) = name ++ (after ++ ':' :: rest) := by
    cases spelled
    exact afterBlanks_append front fun c same => by cases same; decide
  rw [name?, start, read]
  dsimp only
  rw [colon]
  rfl

theorem value?_of_noItems {cs : List Char} (blank : AreBlank cs) (fuel : Nat) (rest : List Char) :
    value? (fuel + 1) ('[' :: (cs ++ [']']) ++ rest) = some (.arr [], rest) := by
  rw [List.cons_append, List.append_assoc, List.singleton_append, value?_bracket,
    afterBlanks_append blank fun c same => by cases same; decide]
  rfl

theorem value?_of_noMembers {cs : List Char} (blank : AreBlank cs) (fuel : Nat) (rest : List Char) :
    value? (fuel + 1) ('\x7b' :: (cs ++ ['\x7d']) ++ rest) = some (.obj [], rest) := by
  rw [List.cons_append, List.append_assoc, List.singleton_append, value?_brace,
    afterBlanks_append blank fun c same => by cases same; decide]
  rfl

theorem value?_of_items {js : List Json} {cs rest : List Char} (opens : Opens cs) {fuel : Nat}
    (read : items? fuel (cs ++ ']' :: rest) = some (js, rest)) :
    value? (fuel + 1) ('[' :: (cs ++ [']']) ++ rest) = some (.arr js, rest) := by
  obtain ⟨c, tail, inside, after⟩ := opens
  rw [List.cons_append, List.append_assoc, List.singleton_append, value?_bracket, after]
  split
  next same =>
    rw [(List.cons.inj same).1] at inside
    cases inside
  next =>
    rw [read]
    rfl

theorem value?_of_members {ms : List (String × Json)} {cs rest : List Char} (opens : Opens cs) {fuel : Nat}
    (read : members? fuel (cs ++ '\x7d' :: rest) = some (ms, rest)) :
    value? (fuel + 1) ('\x7b' :: (cs ++ ['\x7d']) ++ rest) = some (.obj ms, rest) := by
  obtain ⟨c, tail, inside, after⟩ := opens
  rw [List.cons_append, List.append_assoc, List.singleton_append, value?_brace, after]
  split
  next same =>
    rw [(List.cons.inj same).1] at inside
    cases inside
  next =>
    rw [read]
    rfl

/-- What a part of a text says is what is read from it: by induction on the rules of the grammar. -/
theorem isReadAs_of_said {part : Part} {cs : List Char} (said : Says part cs) : IsReadAs part cs := by
  induction said with
  | null =>
    intro fuel rest enough ends
    rw [List.length_cons] at enough
    exact value?_of_atom (List.cons_ne_nil _ _) (List.all_eq_true.mp rfl) rfl (by omega) ends
  | trueWord =>
    intro fuel rest enough ends
    rw [List.length_cons] at enough
    exact value?_of_atom (List.cons_ne_nil _ _) (List.all_eq_true.mp rfl) rfl (by omega) ends
  | falseWord =>
    intro fuel rest enough ends
    rw [List.length_cons] at enough
    exact value?_of_atom (List.cons_ne_nil _ _) (List.all_eq_true.mp rfl) rfl (by omega) ends
  | number n =>
    intro fuel rest enough ends
    obtain ⟨c, tail, chars, -⟩ := n.starts
    refine value?_of_atom (chars ▸ List.cons_ne_nil c tail) (isAtomChar_of_numeral n) (atom?_of_numeral n) ?_ ends
    rw [chars, List.length_cons] at enough
    omega
  | @text s cs spelled =>
    intro fuel rest enough _
    have some : 0 < cs.length := by
      cases spelled
      exact Nat.succ_pos _
    exact value?_of_text spelled (by omega) rest
  | noItems blank =>
    intro fuel rest enough _
    rw [List.length_cons] at enough
    obtain ⟨fuel, rfl⟩ : ∃ k, fuel = k + 1 := ⟨fuel - 1, by omega⟩
    exact value?_of_noItems blank fuel rest
  | noMembers blank =>
    intro fuel rest enough _
    rw [List.length_cons] at enough
    obtain ⟨fuel, rfl⟩ : ∃ k, fuel = k + 1 := ⟨fuel - 1, by omega⟩
    exact value?_of_noMembers blank fuel rest
  | array items ih =>
    intro fuel rest enough _
    rw [List.length_cons, List.length_append] at enough
    obtain ⟨fuel, rfl⟩ : ∃ k, fuel = k + 1 := ⟨fuel - 1, by omega⟩
    exact value?_of_items items.items_opens (ih fuel rest (by omega))
  | object members ih =>
    intro fuel rest enough _
    rw [List.length_cons, List.length_append] at enough
    obtain ⟨fuel, rfl⟩ : ∃ k, fuel = k + 1 := ⟨fuel - 1, by omega⟩
    exact value?_of_members members.members_opens (ih fuel rest (by omega))
  | @padded j before cs after front value back ih =>
    intro fuel rest enough stops
    rw [List.length_append, List.length_append] at enough
    refine ⟨after ++ rest, ?_, afterBlanks_append back fun c same => (stops c same).2⟩
    obtain ⟨c, tail, rfl, inside⟩ := value.starts
    rw [List.append_assoc, afterBlanks_append front, List.append_assoc]
    · exact ih fuel (after ++ rest) (by omega) (ends_of_blanks back stops)
    · intro d same
      cases same
      simp only [isOutside, Bool.or_eq_false_iff] at inside
      exact inside.1.1
  | lastItem item ih =>
    intro fuel rest enough
    obtain ⟨fuel, rfl⟩ : ∃ k, fuel = k + 1 := ⟨fuel - 1, by omega⟩
    obtain ⟨back, read, behind⟩ := ih fuel (']' :: rest) (by omega) (stops_cons (by decide) (by decide) rest)
    rw [items?, read]
    dsimp only
    rw [behind]
    rfl
  | @item j js cs more item onward ih ihOnward =>
    intro fuel rest enough
    rw [List.length_append, List.length_cons] at enough
    obtain ⟨fuel, rfl⟩ : ∃ k, fuel = k + 1 := ⟨fuel - 1, by omega⟩
    obtain ⟨back, read, behind⟩ :=
      ih fuel (',' :: (more ++ ']' :: rest)) (by omega) (stops_cons (by decide) (by decide) _)
    rw [List.append_assoc, List.cons_append, items?, read]
    dsimp only
    rw [behind]
    change Option.map _ (items? fuel (more ++ ']' :: rest)) = _
    rw [ihOnward fuel rest (by omega)]
    rfl
  | @member key j before name after cs front spelled back value ih =>
    intro fuel rest enough stops
    simp only [List.length_append, List.length_cons] at enough
    obtain ⟨fuel, rfl⟩ : ∃ k, fuel = k + 1 := ⟨fuel - 1, by omega⟩
    obtain ⟨behind, read, ends⟩ := ih fuel rest (by omega) stops
    have named : name? fuel (before ++ (name ++ (after ++ ':' :: (cs ++ rest)))) = some (key, cs ++ rest) :=
      name?_of_spells front spelled back (by omega) (cs ++ rest)
    rw [List.append_assoc, List.append_assoc, List.append_assoc, List.cons_append, member?, named]
    dsimp only
    rw [read, Option.map_some, ends]
  | lastMember member ih =>
    intro fuel rest enough
    obtain ⟨fuel, rfl⟩ : ∃ k, fuel = k + 1 := ⟨fuel - 1, by omega⟩
    rw [members?, ih fuel ('\x7d' :: rest) (by omega) (stops_cons (by decide) (by decide) rest)]
    rfl
  | @members m ms cs more member onward ih ihOnward =>
    intro fuel rest enough
    rw [List.length_append, List.length_cons] at enough
    obtain ⟨fuel, rfl⟩ : ∃ k, fuel = k + 1 := ⟨fuel - 1, by omega⟩
    rw [List.append_assoc, List.cons_append, members?,
      ih fuel (',' :: (more ++ '\x7d' :: rest)) (by omega) (stops_cons (by decide) (by decide) _)]
    change Option.map _ (members? fuel (more ++ '\x7d' :: rest)) = _
    rw [ihOnward fuel rest (by omega)]
    rfl

/-- The reader gives what a text says. -/
theorem read?_of_isTextOf {s : String} {j : Json} (said : IsTextOf s j) : read? s = some j := by
  obtain ⟨back, read, behind⟩ := isReadAs_of_said said (2 * s.toList.length) [] le_rfl stops_nil
  rw [List.append_nil] at read
  unfold read?
  rw [read]
  dsimp only
  rw [if_pos behind]

/-- No text says two things. -/
theorem IsTextOf.unique {s : String} {j k : Json} (said : IsTextOf s j) (said' : IsTextOf s k) : j = k :=
  Option.some.inj ((read?_of_isTextOf said).symm.trans (read?_of_isTextOf said'))

end DocLint.Json
