import DocLint.Path.Compile
import DocLint.Proofs.Lists
import DocLint.Query.Reader

/-!
# Tokens of compiled expressions

Marks, quoted keys and positions of an expression that compiles are tokens of the query language as well.
A name without quotes is read as tokens of that language, which knows fewer names. Those that both read alike
are words, words behind `@` and numbers as they are printed (`IsCommonName`): each of them is one token that
names the same key (`IsCommonName.token`).
-/
namespace DocLint

namespace Text

/-- Decimal digits are those of ASCII, or lie beyond them. -/
theorem toNat_of_isDecimal {c : Char} (decimal : isDecimal c = true) :
    48 ≤ c.toNat ∧ c.toNat ≤ 57 ∨ 1632 ≤ c.toNat := by
  simp only [isDecimal, decimalValue?, Option.isSome_map, List.find?_isSome] at decimal
  obtain ⟨z, member, within⟩ := decimal
  have zeros : ∀ z ∈ zeroDigits, z = 48 ∨ 1632 ≤ z := by decide
  simp only [Bool.and_eq_true, decide_eq_true_eq] at within
  have start := zeros z member
  omega

theorem decimalValue?_of_isDigit {c : Char} (digit : c.isDigit = true) :
    decimalValue? c = some (c.toNat - 48) := by
  have bounds : 48 ≤ c.toNat ∧ c.toNat ≤ 57 := Char.isDigit_iff_toNat.mp digit
  simp [decimalValue?, zeroDigits, bounds.1, bounds.2]

theorem isDecimal_of_isDigit {c : Char} (digit : c.isDigit = true) : isDecimal c = true := by
  rw [isDecimal, decimalValue?_of_isDigit digit, Option.isSome_some]

theorem decimalNat?_of_isDigit {cs : List Char} (digits : ∀ c ∈ cs, c.isDigit = true) :
    decimalNat? cs = some (Nat.ofDigitChars 10 cs 0) := by
  have from_any : ∀ n, cs.foldl (fun n c => do return 10 * (← n) + (← decimalValue? c)) (some n) =
      some (Nat.ofDigitChars 10 cs n) := by
    induction cs with
    | nil => simp
    | cons c rest ih =>
      intro n
      rw [List.forall_mem_cons] at digits
      rw [Nat.ofDigitChars_cons, List.foldl_cons, ← ih digits.2]
      simp [decimalValue?_of_isDigit digits.1]
  exact from_any 0

/-- The printed digits of a number write it. -/
theorem decimalNat?_toDigits (n : Nat) : decimalNat? (Nat.toDigits 10 n) = some n := by
  rw [decimalNat?_of_isDigit fun c member => Nat.isDigit_of_mem_toDigits (by decide) (by decide) member,
    Nat.ofDigitChars_ten_toDigits]

end Text

namespace Query

/-- Characters that go on as a decimal fraction does. -/
def StartsFraction (cs : List Char) : Prop :=
  ∃ c more, cs = '.' :: c :: more ∧ Text.isDecimal c = true

/-- A name that both readers take for the same key, in front of what follows it: a word that is not
reserved, a word behind `@`, or a number as it is printed that does not go on with a fraction. -/
inductive IsCommonName : List Char → List Char → Prop
  | word {c : Char} {cs rest : List Char} (starts : Token.startsName c = true)
      (goesOn : ∀ d ∈ cs, Token.isInName d = true)
      (unreserved : String.ofList (c :: cs) ∉ reservedNames) : IsCommonName (c :: cs) rest
  | marked {c : Char} {cs rest : List Char} (starts : Token.startsName c = true)
      (goesOn : ∀ d ∈ cs, Token.isInName d = true) : IsCommonName ('@' :: c :: cs) rest
  | number (i : Int) {rest : List Char} (whole : ¬ StartsFraction rest) :
      IsCommonName (toString i).toList rest

/-- Characters that can follow a step: none, those of another step, or blanks at the end. -/
def Ends (rest : List Char) : Prop :=
  ∀ c, rest.head? = some c → c = '.' ∨ c = '[' ∨ Token.isBetween c = true

/-- A token that stands for a key. -/
inductive NamesKey : Token → String → Prop
  | name {text : String} (unreserved : text ∉ reservedNames) : NamesKey (.name text) text
  | number (i : Int) : NamesKey (.int i) (toString i)

namespace Token

theorem isBetween_iff {c : Char} : isBetween c = true ↔ c = ' ' ∨ c = '\t' ∨ c = '\n' := by
  simp [isBetween, or_assoc]

/-- Marks of one character that are read as they are, whatever follows. -/
def ownMarks : List (Char × Token) :=
  [('$', .dollar), ('*', .star), ('[', .opening), (']', .closing), ('(', .openingGroup),
    (')', .closingGroup), (',', .comma), (':', .colon), ('?', .question)]

theorem read?_mark {c : Char} {t : Token} (mark : (c, t) ∈ ownMarks) (rest : List Char) :
    read? (c :: rest) = some (t, rest) := by
  simp only [ownMarks, List.mem_cons, List.not_mem_nil, or_false, Prod.mk.injEq] at mark
  rcases mark with ⟨rfl, rfl⟩ | ⟨rfl, rfl⟩ | ⟨rfl, rfl⟩ | ⟨rfl, rfl⟩ | ⟨rfl, rfl⟩ | ⟨rfl, rfl⟩ |
    ⟨rfl, rfl⟩ | ⟨rfl, rfl⟩ | ⟨rfl, rfl⟩ <;> rfl

theorem read?_dots (rest : List Char) : read? ('.' :: '.' :: rest) = some (.dots, rest) :=
  rfl

theorem read?_dot {rest : List Char} (single : rest.head? ≠ some '.') :
    read? ('.' :: rest) = some (.dot, rest) := by
  cases rest with
  | nil => simp [read?]
  | cons c rest =>
    have plain : c ≠ '.' := by simpa using single
    simp [read?, plain]

/-- The characters that are marks, or begin one, a quotation or a negative number. -/
def marks : List Char :=
  ['.', '&', '|', '=', '!', '<', '>', '$', '@', '*', '[', ']', '(', ')', ',', ':', '?', '\'', '"',
    '\x60', '-']

/-- Behind no mark there is a number or a name. -/
theorem read?_of_not_mark {c : Char} (plain : c ∉ marks) (rest : List Char) :
    read? (c :: rest) =
      if Text.isDecimal c then readNumber? false (c :: rest)
      else if startsName c then some (readName (c :: rest)) else none := by
  simp only [marks, List.mem_cons, List.not_mem_nil, or_false, not_or] at plain
  cases rest <;> simp [read?, plain]

theorem read?_blank {c : Char} (blank : isBetween c = true) (rest : List Char) :
    read? (c :: rest) = none := by
  rcases isBetween_iff.mp blank with rfl | rfl | rfl <;> rw [read?_of_not_mark (by decide)] <;> rfl

end Token

/-- What ends a step is no part of a word or a number. -/
theorem Ends.stops {rest : List Char} (ends : Ends rest) (c : Char) (first : rest.head? = some c) :
    Token.isInName c = false ∧ Text.isDecimal c = false := by
  rcases ends c first with rfl | rfl | blank
  · decide
  · decide
  · rcases Token.isBetween_iff.mp blank with rfl | rfl | rfl <;> decide

/-- Blanks behind an expression do not go on with a fraction. -/
theorem StartsFraction.of_append {cs blanks : List Char} (blank : ∀ c ∈ blanks, Token.isBetween c = true)
    (starts : StartsFraction (cs ++ blanks)) : StartsFraction cs := by
  have apart : ∀ c ∈ blanks, c ≠ '.' ∧ Text.isDecimal c = false := by
    intro c member
    rcases Token.isBetween_iff.mp (blank c member) with rfl | rfl | rfl <;> decide
  obtain ⟨d, more, text, decimal⟩ := starts
  match cs with
  | [] =>
    have first : '.' ∈ blanks := by simp_all
    exact absurd rfl (apart _ first).1
  | [c] =>
    have second : d ∈ blanks := by simp_all
    rw [(apart _ second).2] at decimal
    cases decimal
  | c :: e :: cs =>
    simp only [List.cons_append, List.cons.injEq] at text
    obtain ⟨rfl, rfl, _⟩ := text
    exact ⟨_, _, rfl, decimal⟩

namespace Token

/-! ### Quoted keys -/

theorem quotedText?_cons {quote c : Char} (plain : c ≠ '\\') (cs : List Char) :
    quotedText? quote (c :: cs) =
      if c == quote then some ([], cs)
      else (quotedText? quote cs).map fun (body, rest) => (c :: body, rest) := by
  rw [quotedText?]
  · simp [plain]
  · simp [plain]

/-- A quoted key is read as a quoted token, whatever follows. -/
theorem quotedText?_of_readQuoted? {quote : Char} {cs body rest : List Char} (mark : quote ≠ '\\')
    (more : List Char) (read : CompiledPath.readQuoted? quote cs = some (body, rest)) :
    quotedText? quote (cs ++ more) = some (body, rest ++ more) := by
  fun_induction CompiledPath.readQuoted? quote cs generalizing body rest with
  | case1 => cases read
  | case2 => cases read
  | case3 c cs plain ih =>
    obtain ⟨_, inner, same⟩ := Option.map_eq_some_iff.mp read
    cases same
    simp [quotedText?, plain, ih inner]
  | case4 c cs _ closing =>
    cases read
    have plain : c ≠ '\\' := beq_iff_eq.mp closing ▸ mark
    rw [List.cons_append, quotedText?_cons plain, if_pos closing]
  | case5 => cases read
  | case6 c cs _ within plain ih =>
    obtain ⟨_, inner, same⟩ := Option.map_eq_some_iff.mp read
    cases same
    have plain : c ≠ '\\' := by simpa using plain
    rw [List.cons_append, quotedText?_cons plain, if_neg within, ih inner]
    rfl

theorem read?_quote {quote : Char} {cs body rest : List Char} (mark : quote = '\'' ∨ quote = '"')
    (more : List Char) (read : CompiledPath.readQuoted? quote cs = some (body, rest)) :
    read? (quote :: cs ++ more) = some (.quoted (String.ofList body), rest ++ more) := by
  have plain : quote ≠ '\\' := by rcases mark with rfl | rfl <;> decide
  have text := quotedText?_of_readQuoted? plain more read
  have closed : closeQuote? quote .quoted (cs ++ more) = some (.quoted (String.ofList body), rest ++ more) := by
    rw [closeQuote?, text]
    rfl
  rcases mark with rfl | rfl <;> exact closed

/-! ### Names and numbers -/

section
variable {c : Char} {cs digits rest : List Char} {n : Nat}

theorem toNat_of_startsName (starts : startsName c = true) : 65 ≤ c.toNat ∧ c.toNat ≤ 122 := by
  rcases Bool.or_eq_true_iff.mp starts with letter | underscore
  · rcases Bool.or_eq_true_iff.mp letter with upper | lower
    · obtain ⟨first, last⟩ : 65 ≤ c.toNat ∧ c.toNat ≤ 90 := of_decide_eq_true upper
      omega
    · obtain ⟨first, last⟩ := Bool.and_eq_true_iff.mp lower
      have first : 97 ≤ c.toNat := of_decide_eq_true first
      have last : c.toNat ≤ 122 := of_decide_eq_true last
      omega
  · rw [eq_of_beq underscore]
    decide

theorem isDecimal_of_startsName (starts : startsName c = true) : Text.isDecimal c = false := by
  refine Bool.eq_false_iff.mpr fun decimal => ?_
  have letter := toNat_of_startsName starts
  have digit := Text.toNat_of_isDecimal decimal
  omega

theorem isInName_of_startsName (starts : startsName c = true) : isInName c = true := by
  rcases Bool.or_eq_true_iff.mp starts with letter | underscore
  · simp [isInName, Char.isAlphanum, letter]
  · simp [isInName, underscore]

theorem readName_append (all : ∀ c ∈ cs, isInName c = true) (ends : Ends rest) :
    readName (cs ++ rest) = (.name (String.ofList cs), rest) := by
  obtain ⟨taken, left⟩ := takeWhile_append_of_stops all fun c first => (ends.stops c first).1
  rw [readName, taken, left]

theorem read?_word (starts : startsName c = true) (goesOn : ∀ d ∈ cs, isInName d = true)
    (ends : Ends rest) : read? (c :: cs ++ rest) = some (.name (String.ofList (c :: cs)), rest) := by
  have plain : c ∉ marks := by
    intro mark
    have none : marks.any startsName = false := by decide
    exact List.any_eq_false.mp none c mark starts
  have all : ∀ d ∈ c :: cs, isInName d = true :=
    List.forall_mem_cons.mpr ⟨isInName_of_startsName starts, goesOn⟩
  rw [List.cons_append, read?_of_not_mark plain, isDecimal_of_startsName starts, if_neg Bool.false_ne_true,
    if_pos starts, ← List.cons_append, readName_append all ends]

/-- Behind `@` a name goes on, if one starts there. -/
theorem read?_at (c : Char) (cs : List Char) :
    read? ('@' :: c :: cs) =
      if startsName c then
        some (.name ("@" ++ String.ofList ((c :: cs).takeWhile isInName)), (c :: cs).dropWhile isInName)
      else some (.current, c :: cs) :=
  rfl

theorem read?_marked (starts : startsName c = true) (goesOn : ∀ d ∈ cs, isInName d = true)
    (ends : Ends rest) :
    read? ('@' :: c :: cs ++ rest) = some (.name (String.ofList ('@' :: c :: cs)), rest) := by
  have all : ∀ d ∈ c :: cs, isInName d = true :=
    List.forall_mem_cons.mpr ⟨isInName_of_startsName starts, goesOn⟩
  obtain ⟨taken, left⟩ := takeWhile_append_of_stops all fun c first => (ends.stops c first).1
  rw [List.cons_append] at taken left
  rw [List.cons_append, List.cons_append, read?_at, if_pos starts, taken, left]
  simp

/-- Digits that do not go on with a fraction are read as the integer that they write. -/
theorem readNumber?_append (negative : Bool) (nonempty : digits ≠ [])
    (decimal : ∀ c ∈ digits, Text.isDecimal c = true) (value : Text.decimalNat? digits = some n)
    (stops : ∀ c, rest.head? = some c → Text.isDecimal c = false) (whole : ¬ StartsFraction rest) :
    readNumber? negative (digits ++ rest) =
      some (.int (if negative then -(n : Int) else n), rest) := by
  obtain ⟨taken, left⟩ := takeWhile_append_of_stops decimal stops
  have given : digits.isEmpty = false := by simpa using nonempty
  simp only [readNumber?, taken, left, value, given, Bool.false_eq_true, if_false, Option.bind_eq_bind,
    Option.bind_some]
  split
  next c more =>
    have plain : Text.isDecimal c = false :=
      Bool.eq_false_iff.mpr fun decimal => whole ⟨c, more, rfl, decimal⟩
    rw [plain, if_neg Bool.false_ne_true]
    rfl
  next => rfl

theorem read?_digits (nonempty : digits ≠ []) (decimal : ∀ c ∈ digits, Text.isDecimal c = true)
    (value : Text.decimalNat? digits = some n)
    (stops : ∀ c, rest.head? = some c → Text.isDecimal c = false) (whole : ¬ StartsFraction rest) :
    read? (digits ++ rest) = some (.int n, rest) := by
  have number := readNumber?_append false nonempty decimal value stops whole
  obtain ⟨c, more, rfl⟩ := List.exists_cons_of_ne_nil nonempty
  have digit : Text.isDecimal c = true := decimal c List.mem_cons_self
  have plain : c ∉ marks := by
    intro mark
    have none : marks.any Text.isDecimal = false := by decide
    exact List.any_eq_false.mp none c mark digit
  rw [List.cons_append, read?_of_not_mark plain, if_pos digit, ← List.cons_append, number,
    if_neg Bool.false_ne_true]

/-- The text of an integer is read as that integer. -/
theorem read?_number (i : Int) (ends : Ends rest) (whole : ¬ StartsFraction rest) :
    read? ((toString i).toList ++ rest) = some (.int i, rest) := by
  have digit : ∀ n, ∀ c ∈ Nat.toDigits 10 n, Text.isDecimal c = true := fun n c member =>
    Text.isDecimal_of_isDigit (Nat.isDigit_of_mem_toDigits (b := 10) (by decide) (by decide) member)
  have stops := fun c first => (ends.stops c first).2
  cases i with
  | ofNat n =>
    have text : (toString (Int.ofNat n)).toList = Nat.toDigits 10 n := by
      simp [Int.toString_eq_repr, Int.repr_eq_if, Nat.toList_repr]
    rw [text, read?_digits Nat.toDigits_ne_nil (digit n) (Text.decimalNat?_toDigits n) stops whole]
    rfl
  | negSucc n =>
    have text : (toString (Int.negSucc n)).toList = '-' :: Nat.toDigits 10 (n + 1) := by
      rw [Int.toString_eq_repr, Int.repr_eq_if]
      simp [Nat.toList_repr]
    have number := readNumber?_append true Nat.toDigits_ne_nil (digit (n + 1))
      (Text.decimalNat?_toDigits (n + 1)) stops whole
    rw [text]
    change readNumber? true (Nat.toDigits 10 (n + 1) ++ rest) = _
    rw [number]
    rfl

end

end Token

theorem IsCommonName.append {name after blanks : List Char} (common : IsCommonName name after)
    (blank : ∀ c ∈ blanks, Token.isBetween c = true) : IsCommonName name (after ++ blanks) := by
  cases common with
  | word starts goesOn unreserved => exact .word starts goesOn unreserved
  | marked starts goesOn => exact .marked starts goesOn
  | number i whole => exact .number i fun starts => whole (starts.of_append blank)

/-- A common name is read as one token, which names the key that the name spells. -/
theorem IsCommonName.token {name rest : List Char} (common : IsCommonName name rest)
    (ends : Ends rest) :
    ∃ t, NamesKey t (String.ofList name) ∧ Token.read? (name ++ rest) = some (t, rest) := by
  cases common with
  | word starts goesOn unreserved => exact ⟨_, .name unreserved, Token.read?_word starts goesOn ends⟩
  | @marked c cs _ starts goesOn =>
    refine ⟨_, .name ?_, Token.read?_marked starts goesOn ends⟩
    have first : ∀ s ∈ reservedNames, s.toList.head? ≠ some '@' := by decide
    intro reserved
    exact first _ reserved (by simp)
  | number i whole =>
    refine ⟨_, ?_, Token.read?_number i ends whole⟩
    rw [String.ofList_toList]
    exact .number i

end Query
end DocLint
