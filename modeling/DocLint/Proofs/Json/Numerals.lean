import DocLint.Proofs.Json.Grammar
import DocLint.Proofs.Number.Shortest

/-!
# Texts of numbers as JSON numbers

The text of an integer and that of a finite floating-point number are numbers by the grammar of JSON that say just that
number (`Json.exists_numeral_of_int`, `Json.exists_numeral_of_real`): of the floating-point number since the digits and
their point or exponent write a decimal that rounds to it.
-/
namespace DocLint.Json

open Binary64 (IsSignificant decimal positional exponential)

/-- The sign in front of a number. -/
def signChars (negative : Bool) : List Char :=
  if negative then ['-'] else []

/-- The digits of a natural number. -/
def digitsOf (n : Nat) : Digits where
  chars := Nat.toDigits 10 n
  nonempty := Nat.length_toDigits_pos
  digit := fun _ member => Nat.isDigit_of_mem_toDigits (by decide) (by decide) member

theorem digitsOf_leading (n : Nat) (zero : (digitsOf n).chars.head? = some '0') : (digitsOf n).chars = ['0'] := by
  rcases Nat.eq_zero_or_pos n with rfl | size
  · rfl
  · exact absurd zero (Binary64.head?_toDigits_ne size)

/-! ### Integers -/

theorem toList_toString_int (i : Int) : (toString i).toList = signChars (i < 0) ++ Nat.toDigits 10 i.natAbs := by
  rw [Int.toString_eq_repr, Int.repr_eq_if]
  split
  next nonneg =>
    have same : i.toNat = i.natAbs := by omega
    simp [signChars, show ¬ i < 0 by omega, same, Nat.toList_repr]
  next negative =>
    have same : (-i).toNat = i.natAbs := by omega
    simp [signChars, show i < 0 by omega, same, Nat.toList_repr]

/-- The text of an integer says that integer. -/
theorem exists_numeral_of_int (i : Int) : ∃ n : Numeral, n.chars = (toString i).toList ∧ n.value = .int i := by
  refine ⟨⟨i < 0, digitsOf i.natAbs, digitsOf_leading i.natAbs, none, none⟩, ?_, ?_⟩
  · rw [toList_toString_int]
    simp [Numeral.chars, Numeral.fractionChars, Numeral.exponentChars, signChars, digitsOf]
  · have read : Nat.ofDigitChars 10 (Nat.toDigits 10 i.natAbs) 0 = i.natAbs := Nat.ofDigitChars_ten_toDigits
    simp only [Numeral.value, Numeral.significand, Numeral.fractionDigits, digitsOf, Option.elim_none, List.append_nil,
      read, Option.isNone_none, Bool.and_self, if_true, decide_eq_true_eq]
    split <;> congr 1 <;> omega

/-! ### Floating-point numbers -/

/-- A number that is written with a sign and further characters, and is no integer to JSON but writes a decimal. -/
structure Numeral.Writes (n : Numeral) (negative : Bool) (chars : List Char) (x : ℚ) : Prop where
  sign : n.negative = negative
  text : n.chars = signChars negative ++ chars
  real : (n.fraction.isNone && n.exponent.isNone) = false
  size : (n.significand : ℚ) * 10 ^ n.scale = x

variable {digits : List Char} {point : Int}

/-- With the point in front of all digits. -/
theorem exists_writes_small (significant : IsSignificant digits) (small : point ≤ 0) (negative : Bool) :
    ∃ n : Numeral, n.Writes negative (positional digits point) (decimal digits point) := by
  obtain ⟨k, rfl⟩ : ∃ k : ℕ, point = -k := ⟨(-point).toNat, by omega⟩
  let fraction : Digits :=
    { chars := List.replicate k '0' ++ digits
      nonempty := List.length_pos_of_ne_nil (List.append_ne_nil_of_right_ne_nil _ significant.nonempty)
      digit := fun c member => by
        rcases List.mem_append.mp member with zero | digit
        · rw [List.eq_of_mem_replicate zero]
          rfl
        · exact significant.digit c digit }
  refine ⟨⟨negative, digitsOf 0, digitsOf_leading 0, some fraction, none⟩, rfl, ?_, rfl, ?_⟩
  · have zero : Nat.toDigits 10 0 = ['0'] := rfl
    simp [Numeral.chars, Numeral.fractionChars, Numeral.exponentChars, positional, digitsOf, zero, fraction, signChars]
  · have value : Nat.ofDigitChars 10 (Nat.toDigits 10 0 ++ (List.replicate k '0' ++ digits)) 0 =
        Nat.ofDigitChars 10 digits 0 := by
      rw [Nat.ofDigitChars_append, Nat.ofDigitChars_ten_toDigits, Nat.ofDigitChars_append,
        Nat.ofDigitChars_replicate_zero, Nat.mul_zero]
    simp only [Numeral.significand, Numeral.scale, Numeral.fractionDigits, Option.elim_some, Option.elim_none, digitsOf,
      fraction, value, decimal, List.length_append, List.length_replicate]
    congr 2
    push_cast
    ring

/-- With the point between two digits. -/
theorem exists_writes_middle (significant : IsSignificant digits) {k : ℕ} (some : 0 < k) (inside : k < digits.length)
    (negative : Bool) : ∃ n : Numeral, n.Writes negative (positional digits k) (decimal digits k) := by
  let whole : Digits :=
    { chars := digits.take k
      nonempty := by
        rw [List.length_take]
        omega
      digit := fun c member => significant.digit c (List.mem_of_mem_take member) }
  let fraction : Digits :=
    { chars := digits.drop k
      nonempty := by
        rw [List.length_drop]
        omega
      digit := fun c member => significant.digit c (List.mem_of_mem_drop member) }
  have leading : whole.chars.head? = .some '0' → whole.chars = ['0'] := by
    intro zero
    rw [List.head?_take, if_neg (by omega)] at zero
    exact absurd zero significant.leading
  refine ⟨⟨negative, whole, leading, .some fraction, none⟩, rfl, ?_, rfl, ?_⟩
  · have more : ¬ (digits.drop k).isEmpty = true := by
      rw [List.isEmpty_iff]
      exact fraction.chars_ne_nil
    have full : k - (digits.take k).length = 0 := by
      rw [List.length_take]
      omega
    simp only [Numeral.chars, Numeral.fractionChars, Numeral.exponentChars, positional, whole, fraction, signChars,
      Option.elim_some, Option.elim_none, List.append_nil, Int.toNat_natCast, full, List.replicate_zero, if_neg more,
      if_neg (show ¬ (k : ℤ) ≤ 0 by omega)]
  · simp only [Numeral.significand, Numeral.scale, Numeral.fractionDigits, Option.elim_some, Option.elim_none, whole,
      fraction, List.take_append_drop, decimal, List.length_drop]
    congr 2
    omega

/-- With the point behind all digits. -/
theorem exists_writes_large (significant : IsSignificant digits) {k : ℕ} (outside : digits.length ≤ k)
    (negative : Bool) : ∃ n : Numeral, n.Writes negative (positional digits k) (decimal digits k) := by
  obtain ⟨j, rfl⟩ : ∃ j, k = digits.length + j := ⟨k - digits.length, by omega⟩
  have some : 0 < digits.length := List.length_pos_of_ne_nil significant.nonempty
  let whole : Digits :=
    { chars := digits ++ List.replicate j '0'
      nonempty := List.length_pos_of_ne_nil (List.append_ne_nil_of_left_ne_nil significant.nonempty _)
      digit := fun c member => by
        rcases List.mem_append.mp member with digit | zero
        · exact significant.digit c digit
        · rw [List.eq_of_mem_replicate zero]
          rfl }
  have leading : whole.chars.head? = .some '0' → whole.chars = ['0'] := by
    intro zero
    rw [List.head?_append_of_ne_nil _ significant.nonempty] at zero
    exact absurd zero significant.leading
  refine ⟨⟨negative, whole, leading, .some (digitsOf 0), none⟩, rfl, ?_, rfl, ?_⟩
  · have zero : Nat.toDigits 10 0 = ['0'] := rfl
    have taken : digits.take (digits.length + j) = digits := List.take_of_length_le (by omega)
    have dropped : digits.drop (digits.length + j) = [] := List.drop_of_length_le (by omega)
    simp only [Numeral.chars, Numeral.fractionChars, Numeral.exponentChars, positional, whole, digitsOf, zero, signChars,
      Option.elim_some, Option.elim_none, List.append_nil, Int.toNat_natCast, taken, dropped, List.isEmpty_nil, if_true,
      Nat.add_sub_cancel_left, if_neg (show ¬ ((digits.length + j : ℕ) : ℤ) ≤ 0 by omega)]
  · have value : Nat.ofDigitChars 10 (digits ++ List.replicate j '0' ++ Nat.toDigits 10 0) 0 =
        10 * (10 ^ j * Nat.ofDigitChars 10 digits 0) := by
      rw [Nat.ofDigitChars_append, Nat.ofDigitChars_append, Nat.ofDigitChars_replicate_zero,
        Nat.ofDigitChars_eq_ofDigitChars_zero, Nat.ofDigitChars_ten_toDigits]
      rfl
    simp only [Numeral.significand, Numeral.scale, Numeral.fractionDigits, Option.elim_some, Option.elim_none, whole,
      digitsOf, value, decimal]
    have length : (Nat.toDigits 10 0).length = 1 := rfl
    rw [length]
    push_cast
    rw [show ((digits.length : ℤ) + j - digits.length) = j by ring, zpow_natCast]
    ring

theorem exists_writes_positional (significant : IsSignificant digits) (point : Int) (negative : Bool) :
    ∃ n : Numeral, n.Writes negative (positional digits point) (decimal digits point) := by
  rcases le_or_gt point 0 with small | large
  · exact exists_writes_small significant small negative
  · obtain ⟨k, rfl⟩ := Int.eq_ofNat_of_zero_le large.le
    rcases lt_or_ge k digits.length with inside | outside
    · exact exists_writes_middle significant (by omega) inside negative
    · exact exists_writes_large significant outside negative

/-- The exponent of ten as it is written, with two digits at least. -/
def exponentOf (exponent : Int) : Exponent where
  letter := 'e'
  isLetter := .inl rfl
  sign := if exponent < 0 then .minus else .plus
  digits :=
    if exponent.natAbs < 10 then
      { chars := '0' :: Nat.toDigits 10 exponent.natAbs
        nonempty := Nat.succ_pos _
        digit := fun c member => by
          rcases List.mem_cons.mp member with rfl | digit
          · rfl
          · exact (digitsOf exponent.natAbs).digit c digit }
    else digitsOf exponent.natAbs

theorem exponentOf_value (exponent : Int) : (exponentOf exponent).value = exponent := by
  have digits : (exponentOf exponent).digits.value = exponent.natAbs := by
    have read : Nat.ofDigitChars 10 (Nat.toDigits 10 exponent.natAbs) 0 = exponent.natAbs := Nat.ofDigitChars_ten_toDigits
    unfold exponentOf Digits.value
    dsimp only
    split
    · rw [Nat.ofDigitChars_cons]
      exact read
    · exact read
  have sign : (exponentOf exponent).sign = if exponent < 0 then .minus else .plus := rfl
  rw [Exponent.value, digits, sign]
  split
  next negative =>
    change -(exponent.natAbs : ℤ) = exponent
    omega
  next nonneg =>
    change (exponent.natAbs : ℤ) = exponent
    omega

theorem exponential_cons (c : Char) (rest : List Char) (point : Int) :
    exponential (c :: rest) point =
      c :: ((if rest = [] then [] else '.' :: rest) ++ (exponentOf (point - 1)).chars) := by
  have exponent : (exponentOf (point - 1)).chars =
      'e' :: (if point - 1 < 0 then '-' else '+') ::
        (if (point - 1).natAbs < 10 then '0' :: Nat.toDigits 10 (point - 1).natAbs
          else Nat.toDigits 10 (point - 1).natAbs) := by
    unfold exponentOf Exponent.chars
    dsimp only
    congr 1
    split <;> split <;> rfl
  rw [exponent]
  cases rest <;> rfl

/-- With one digit in front of the point and an exponent. -/
theorem exists_writes_exponential (significant : IsSignificant digits) (point : Int) (negative : Bool) :
    ∃ n : Numeral, n.Writes negative (exponential digits point) (decimal digits point) := by
  obtain ⟨c, rest, rfl⟩ := List.exists_cons_of_ne_nil significant.nonempty
  let whole : Digits :=
    { chars := [c]
      nonempty := Nat.succ_pos _
      digit := fun d member => significant.digit d (List.mem_singleton.mp member ▸ List.mem_cons_self) }
  have leading : whole.chars.head? = some '0' → whole.chars = ['0'] :=
    fun zero => absurd zero significant.leading
  have exponent := exponentOf_value (point - 1)
  rw [exponential_cons]
  by_cases none : rest = []
  · subst none
    refine ⟨⟨negative, whole, leading, .none, some (exponentOf (point - 1))⟩, rfl, rfl, rfl, ?_⟩
    simp only [Numeral.significand, Numeral.scale, Numeral.fractionDigits, Option.elim_none, Option.elim_some, exponent,
      decimal, whole, List.append_nil, List.length_nil, List.length_singleton]
    congr 2
    push_cast
    ring
  · let fraction : Digits :=
      { chars := rest
        nonempty := List.length_pos_of_ne_nil none
        digit := fun d member => significant.digit d (List.mem_cons_of_mem c member) }
    refine ⟨⟨negative, whole, leading, some fraction, some (exponentOf (point - 1))⟩, rfl, ?_, rfl, ?_⟩
    · rw [if_neg none]
      rfl
    · simp only [Numeral.significand, Numeral.scale, Numeral.fractionDigits, Option.elim_some, exponent, decimal, whole,
        fraction, List.singleton_append, List.length_cons]
      congr 2
      push_cast
      ring

/-- The text of zero. -/
theorem exists_writes_zero (negative : Bool) : ∃ n : Numeral, n.Writes negative ['0', '.', '0'] 0 := by
  refine ⟨⟨negative, digitsOf 0, digitsOf_leading 0, some (digitsOf 0), none⟩, rfl, rfl, rfl, ?_⟩
  have value : Nat.ofDigitChars 10 (Nat.toDigits 10 0 ++ Nat.toDigits 10 0) 0 = 0 := by
    decide
  change ((Nat.ofDigitChars 10 (Nat.toDigits 10 0 ++ Nat.toDigits 10 0) 0 : ℕ) : ℚ) * _ = 0
  rw [value, Nat.cast_zero, zero_mul]

/-- The text of a finite number says that number. -/
theorem exists_numeral_of_real {x : Binary64} (finite : x.IsFinite) :
    ∃ n : Numeral, n.chars = (writeReal x).toList ∧ n.value = .real x := by
  cases x with
  | infinite => exact finite.elim
  | nan => exact finite.elim
  | finite negative m e =>
    have text : (writeReal (.finite negative m e)).toList =
        signChars negative ++
          (if m = 0 then ['0', '.', '0']
            else if -4 < (Binary64.shortest m e).2 && (Binary64.shortest m e).2 ≤ 16 then
              positional (Binary64.shortest m e).1 (Binary64.shortest m e).2
            else exponential (Binary64.shortest m e).1 (Binary64.shortest m e).2) := by
      unfold writeReal Binary64.text signChars
      dsimp only
      rw [String.toList_ofList]
      cases negative <;> rfl
    rw [text]
    rcases Nat.eq_zero_or_pos m with rfl | size
    · obtain ⟨n, sign, chars, real, zero⟩ := exists_writes_zero negative
      refine ⟨n, chars, ?_⟩
      have least : e = Binary64.leastExponent := finite.full.resolve_left (by decide)
      have none : n.significand = 0 := by
        have power : (10 : ℚ) ^ n.scale ≠ 0 := by positivity
        have := (mul_eq_zero.mp zero).resolve_right power
        exact_mod_cast this
      rw [Numeral.value, real, if_neg Bool.false_ne_true, none, Binary64.ofDecimal_zero, sign, least]
      rfl
    · obtain ⟨significant, near⟩ := Binary64.shortest_near finite size
      obtain ⟨n, sign, chars, real, same⟩ : ∃ n : Numeral, n.Writes negative
          (if m = 0 then ['0', '.', '0']
            else if -4 < (Binary64.shortest m e).2 && (Binary64.shortest m e).2 ≤ 16 then
              positional (Binary64.shortest m e).1 (Binary64.shortest m e).2
            else exponential (Binary64.shortest m e).1 (Binary64.shortest m e).2)
          (decimal (Binary64.shortest m e).1 (Binary64.shortest m e).2) := by
        rw [if_neg (by omega)]
        split
        · exact exists_writes_positional significant _ negative
        · exact exists_writes_exponential significant _ negative
      refine ⟨n, chars, ?_⟩
      rw [← same] at near
      rw [Numeral.value, real, if_neg Bool.false_ne_true, Binary64.ofDecimal_of_near n.negative finite size near, sign]

end DocLint.Json
