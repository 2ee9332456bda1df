import DocLint.Number.Decimal
import DocLint.Proofs.Number.Rounding
import Mathlib.Data.List.DropRight
import Mathlib.Data.Nat.Cast.Order.Field
import Mathlib.Tactic.IntervalCases

/-!
# Shortest digits

The digits with which a floating-point number is written are those of a decimal that rounds to it
(`Binary64.shortest_near`): seventeen digits always suffice, as the decimals of so many digits are closer together than
the numbers (`Binary64.near_of_fine`). Reading any decimal that rounds to a number gives that number
(`Binary64.ofDecimal_of_near`), so what is written is read back.
-/
namespace DocLint

namespace Number

/-- A positive number lies between the powers of ten of its digits. -/
theorem digitCount_spec {n : ℕ} (size : 0 < n) :
    (10 : ℚ) ^ ((digitCount n : ℤ) - 1) ≤ n ∧ (n : ℚ) < 10 ^ (digitCount n : ℤ) := by
  have some : 0 < digitCount n := Nat.length_toDigits_pos
  have upper : n < 10 ^ digitCount n := (Nat.length_toDigits_le_iff (by decide) some).mp le_rfl
  have lower : 10 ^ (digitCount n - 1) ≤ n := by
    by_contra less
    rcases Nat.eq_zero_or_pos (digitCount n - 1) with none | more
    · rw [none] at less
      omega
    · have : digitCount n ≤ digitCount n - 1 := (Nat.length_toDigits_le_iff (by decide) more).mpr (not_le.mp less)
      omega
  constructor
  · rw [show (digitCount n : ℤ) - 1 = (digitCount n - 1 : ℕ) by omega, zpow_natCast]
    exact_mod_cast lower
  · rw [zpow_natCast]
    exact_mod_cast upper

end Number

namespace Binary64

/-! ### Where the decimal point is -/

theorem pointPosition_spec {n d : ℕ} (size : 0 < n) (positive : 0 < d) :
    (10 : ℚ) ^ (pointPosition n d - 1) ≤ n / d ∧ (n / d : ℚ) < 10 ^ pointPosition n d := by
  have size' : (0 : ℚ) < n := by exact_mod_cast size
  have positive' : (0 : ℚ) < d := by exact_mod_cast positive
  unfold pointPosition
  split
  next large =>
    obtain ⟨low, high⟩ := Number.digitCount_spec (Nat.div_pos large positive)
    constructor
    · exact low.trans Nat.cast_div_le
    · -- The whole part is below a power of ten, so it is at most one less.
      rw [zpow_natCast] at high ⊢
      have below : n / d < 10 ^ Number.digitCount (n / d) := by exact_mod_cast high
      have : n < 10 ^ Number.digitCount (n / d) * d := (Nat.div_lt_iff_lt_mul positive).mp below
      rw [div_lt_iff₀ positive']
      exact_mod_cast this
  next small =>
    -- Just as the reciprocal rounded up is above a power of ten and the one before it is not.
    generalize reciprocal : (d + n - 1) / n - 1 = t
    have two : 2 ≤ (d + n - 1) / n := (Nat.le_div_iff_mul_le size).mpr (by omega)
    have above : t * n < d := by
      have := Nat.div_mul_le_self (d + n - 1) n
      have : t * n + n = (d + n - 1) / n * n := by
        rw [← reciprocal, Nat.sub_mul, one_mul]
        have := Nat.mul_le_mul_right n two
        omega
      omega
    have below : d ≤ (t + 1) * n := by
      have := Nat.lt_div_mul_add (a := d + n - 1) size
      have : t + 1 = (d + n - 1) / n := by omega
      rw [this]
      omega
    obtain ⟨low, high⟩ := Number.digitCount_spec (show 0 < t by omega)
    generalize Number.digitCount t = k at low high
    have top : (t : ℚ) + 1 ≤ 10 ^ (k : ℤ) := by
      rw [zpow_natCast] at high ⊢
      exact_mod_cast high
    constructor
    · rw [show (1 : ℤ) - k - 1 = -k by ring, zpow_neg, inv_le_comm₀ (by positivity) (div_pos size' positive'),
        inv_div, div_le_iff₀ size']
      calc (d : ℚ) ≤ (t + 1) * n := by exact_mod_cast below
        _ ≤ 10 ^ (k : ℤ) * n := by gcongr
    · rw [show (1 : ℤ) - k = -(k - 1) by ring, zpow_neg, lt_inv_comm₀ (div_pos size' positive') (by positivity),
        inv_div, lt_div_iff₀ size']
      calc (10 : ℚ) ^ ((k : ℤ) - 1) * n ≤ t * n := by gcongr
        _ < d := by exact_mod_cast above

/-! ### Decimals that read back -/

variable {m : ℕ} {e : ℤ}

theorem quartersBelow_eq (m : ℕ) (e : ℤ) :
    (if m = Nat.pow 2 52 && leastExponent < e then 1 else 2) = quartersBelow m e := by
  simp [quartersBelow]

theorem cross_le_iff {a u s c t p : ℕ} (scale : 0 < s) (parts : 0 < p) :
    a * u * p ≤ c * t * s ↔ (a : ℚ) * (u / s) ≤ c * (t / p) := by
  have scale' : (0 : ℚ) < s := by exact_mod_cast scale
  have parts' : (0 : ℚ) < p := by exact_mod_cast parts
  rw [← mul_div_assoc, ← mul_div_assoc, div_le_div_iff₀ scale' parts']
  exact_mod_cast Iff.rfl

theorem cross_lt_iff {a u s c t p : ℕ} (scale : 0 < s) (parts : 0 < p) :
    a * u * p < c * t * s ↔ (a : ℚ) * (u / s) < c * (t / p) := by
  have scale' : (0 : ℚ) < s := by exact_mod_cast scale
  have parts' : (0 : ℚ) < p := by exact_mod_cast parts
  rw [← mul_div_assoc, ← mul_div_assoc, div_lt_div_iff₀ scale' parts']
  exact_mod_cast Iff.rfl

/-- A power of ten as a quotient. -/
theorem tenPower_spec (q : ℤ) :
    let power := if 0 ≤ q then (Nat.pow 10 q.toNat, 1) else (1, Nat.pow 10 (-q).toNat)
    0 < power.2 ∧ (power.1 : ℚ) / power.2 = 10 ^ q := by
  dsimp only
  split
  next nonneg =>
    obtain ⟨k, rfl⟩ := Int.eq_ofNat_of_zero_le nonneg
    simp
  next negative =>
    obtain ⟨k, rfl⟩ := Int.exists_eq_neg_ofNat (not_le.mp negative).le
    simp

/-- Whether a decimal reads back is whether it rounds to the number. -/
theorem readsBack_iff (size : 0 < m) (c : ℕ) (q : ℤ) : readsBack m e c q = true ↔ Near m e (c * 10 ^ q) := by
  have unit := ratio_eq 1 (e - 2)
  have scale := ratio_pos 1 (e - 2)
  obtain ⟨parts, tens⟩ := tenPower_spec q
  unfold readsBack
  rw [quartersBelow_eq]
  generalize ratio 1 (e - 2) = unitScale at unit scale ⊢
  generalize (if 0 ≤ q then (Nat.pow 10 q.toNat, 1) else (1, Nat.pow 10 (-q).toNat)) = tensParts at parts tens ⊢
  obtain ⟨u, s⟩ := unitScale
  obtain ⟨t, p⟩ := tensParts
  dsimp only at unit scale parts tens ⊢
  have quarters := quartersBelow_le m e
  have cast : ((4 * m - quartersBelow m e : ℕ) : ℚ) = 4 * m - quartersBelow m e := by
    rw [Nat.cast_sub (by omega)]
    push_cast
    ring
  have lowLe := cross_le_iff (a := 4 * m - quartersBelow m e) (u := u) (c := c) (t := t) scale parts
  have lowLt := cross_lt_iff (a := 4 * m - quartersBelow m e) (u := u) (c := c) (t := t) scale parts
  have highLe := cross_le_iff (a := c) (u := t) (c := 4 * m + 2) (t := u) parts scale
  have highLt := cross_lt_iff (a := c) (u := t) (c := 4 * m + 2) (t := u) parts scale
  rw [unit, tens, cast, Nat.cast_one, one_mul] at lowLe lowLt
  rw [unit, tens, Nat.cast_one, one_mul] at highLe highLt
  push_cast at highLe highLt
  split
  next even =>
    rw [Bool.and_eq_true, decide_eq_true_eq, decide_eq_true_eq, lowLe, highLe]
    exact ⟨fun within => ⟨within.1, within.2, fun odd => by omega⟩, fun near => ⟨near.low, near.high⟩⟩
  next odd =>
    rw [Bool.and_eq_true, decide_eq_true_eq, decide_eq_true_eq, lowLt, highLt]
    exact ⟨fun within => ⟨within.1.le, within.2.le, fun _ => within⟩, fun near => near.inside (by omega)⟩

/-- A decimal that rounds to a positive number is positive. -/
theorem Near.decimal_pos {c : ℕ} {q : ℤ} (near : Near m e (c * 10 ^ q)) (size : 0 < m) : 0 < c := by
  have positive := near.pos size
  by_contra none
  rw [Nat.eq_zero_of_not_pos none] at positive
  simp at positive

/-- On a grid of decimals as fine as seventeen digits make it, the decimal nearest to a number rounds to it. -/
theorem near_of_fine {q : ℤ} {c : ℕ} (form : InForm m e) (fine : (10 : ℚ) ^ q * 10 ^ 16 ≤ m * 2 ^ e)
    (nearest : Number.RoundsTo (m * 2 ^ e / 10 ^ q) c) : Near m e (c * 10 ^ q) := by
  have step : (0 : ℚ) < 10 ^ q := by positivity
  have unit : (0 : ℚ) < 2 ^ e := by positivity
  have below : (c : ℚ) * 10 ^ q ≤ m * 2 ^ e + 10 ^ q / 2 := by
    have := nearest.low
    rw [le_div_iff₀ step] at this
    linarith
  have above : (m : ℚ) * 2 ^ e - 10 ^ q / 2 ≤ c * 10 ^ q := by
    have := nearest.high
    rw [div_le_iff₀ step] at this
    linarith
  have most : (m : ℚ) ≤ 2 ^ 53 := by exact_mod_cast form.below.le
  have half : (10 : ℚ) ^ q / 2 < 2 ^ e / 2 := by nlinarith
  -- Where the numbers below are closer, the number is small beside its last place.
  have low : (4 * m - quartersBelow m e : ℚ) * 2 ^ (e - 2) < c * 10 ^ q := by
    rw [zpow_sub_two]
    unfold quartersBelow
    split
    next power =>
      have power' : (m : ℚ) = 2 ^ 52 := by exact_mod_cast power.1
      rw [power'] at fine above ⊢
      push_cast
      linarith
    next =>
      push_cast
      linarith
  have high : (c : ℚ) * 10 ^ q < (4 * m + 2) * 2 ^ (e - 2) := by
    rw [zpow_sub_two]
    linarith
  exact ⟨low.le, high.le, fun _ => ⟨low, high⟩⟩

/-! ### The digits -/

/-- Digits as a number is written with: at least one, and not a zero first. -/
structure IsSignificant (digits : List Char) : Prop where
  digit : ∀ c ∈ digits, c.isDigit = true
  nonempty : digits ≠ []
  leading : digits.head? ≠ some '0'

/-- The number that digits write with the decimal point at a position. -/
def decimal (digits : List Char) (point : ℤ) : ℚ :=
  Nat.ofDigitChars 10 digits 0 * 10 ^ (point - digits.length)

theorem head?_toDigits_ne {c : ℕ} (size : 0 < c) : (Nat.toDigits 10 c).head? ≠ some '0' := by
  induction c using Nat.strongRecOn with
  | ind c ih =>
    rw [Nat.toDigits_eq_if (by decide)]
    split
    next single =>
      interval_cases c <;> decide
    next =>
      have nonempty : Nat.toDigits 10 (c / 10) ≠ [] := Nat.toDigits_ne_nil
      rw [List.head?_append_of_ne_nil _ nonempty]
      exact ih (c / 10) (by omega) (by omega)

/-- Digits without the zeros at their end. -/
theorem exists_zeros (digits : List Char) :
    ∃ k, digits = (digits.reverse.dropWhile (· == '0')).reverse ++ List.replicate k '0' := by
  have whole := List.takeWhile_append_dropWhile (p := (· == '0')) (l := digits.reverse)
  have zeros : digits.reverse.takeWhile (· == '0') = List.replicate (digits.reverse.takeWhile (· == '0')).length '0' :=
    List.eq_replicate_of_mem fun c member => by simpa using List.mem_takeWhile_imp member
  refine ⟨(digits.reverse.takeWhile (· == '0')).length, ?_⟩
  rw [← List.reverse_replicate, ← zeros, ← List.reverse_append, whole, List.reverse_reverse]

/-- The digits of a positive number without the zeros at their end, which move into the exponent. -/
theorem significant_kept {c : ℕ} (size : 0 < c) (q : ℤ) :
    let kept := ((Nat.toDigits 10 c).reverse.dropWhile (· == '0')).reverse
    IsSignificant kept ∧ decimal kept (q + (Nat.toDigits 10 c).length) = c * 10 ^ q := by
  intro kept
  obtain ⟨k, whole⟩ := exists_zeros (Nat.toDigits 10 c)
  change Nat.toDigits 10 c = kept ++ _ at whole
  have value : Nat.ofDigitChars 10 kept 0 * 10 ^ k = c := by
    have read := Nat.ofDigitChars_ten_toDigits (n := c)
    rw [whole, Nat.ofDigitChars_append, Nat.ofDigitChars_replicate_zero, mul_comm] at read
    exact read
  have nonempty : kept ≠ [] := by
    intro none
    rw [none] at value
    simp at value
    omega
  refine ⟨⟨?_, nonempty, ?_⟩, ?_⟩
  · intro d member
    refine Nat.isDigit_of_mem_toDigits (b := 10) (n := c) (by decide) (by decide) ?_
    rw [whole]
    exact List.mem_append_left _ member
  · have leading := head?_toDigits_ne size
    rwa [whole, List.head?_append_of_ne_nil _ nonempty] at leading
  · have size : ((Nat.toDigits 10 c).length : ℤ) = kept.length + k := by
      rw [whole]
      simp
    rw [decimal, size, show q + ((kept.length : ℤ) + k) - kept.length = k + q by ring, zpow_add₀ (by norm_num),
      zpow_natCast, ← mul_assoc, ← value]
    push_cast
    rfl

theorem readsBack_of_onGrid? {q : ℤ} {n d c : ℕ} (found : onGrid? m e q n d = some c) : readsBack m e c q = true := by
  unfold onGrid? at found
  generalize (if 0 ≤ q then _ else _ : ℕ × ℕ) = scaled at found
  dsimp only at found
  split at found
  next reads => exact Option.some.inj found ▸ reads
  next =>
    obtain ⟨reads, same⟩ := Option.ite_none_right_eq_some.mp found
    exact Option.some.inj same ▸ reads

/-- A quotient in units of a power of ten. -/
theorem tenScaled_spec (q : ℤ) (n : ℕ) {d : ℕ} (positive : 0 < d) :
    let scaled := if 0 ≤ q then (n, d * Nat.pow 10 q.toNat) else (n * Nat.pow 10 (-q).toNat, d)
    0 < scaled.2 ∧ (scaled.1 : ℚ) / scaled.2 = n / d / 10 ^ q := by
  dsimp only
  split
  next nonneg => exact ⟨Nat.mul_pos positive (Nat.pow_pos (by decide)), div_mul_pow n d nonneg⟩
  next negative => exact ⟨positive, mul_pow_div n d negative⟩

/-- The decimal of a grid that is nearest to a quotient is found if it reads back. -/
theorem exists_nearest_onGrid (m : ℕ) (e q : ℤ) (n : ℕ) {d : ℕ} (positive : 0 < d) :
    ∃ c, Number.RoundsTo ((n : ℚ) / d / 10 ^ q) c ∧
      (readsBack m e c q = true → (onGrid? m e q n d).isSome = true) := by
  obtain ⟨positive', same⟩ := tenScaled_spec q n positive
  unfold onGrid?
  generalize (if 0 ≤ q then _ else _ : ℕ × ℕ) = scaled at positive' same ⊢
  refine ⟨Number.roundDiv scaled.1 scaled.2, ?_, fun reads => ?_⟩
  · rw [← same]
    exact Number.roundDiv_roundsTo scaled.1 positive'
  · dsimp only
    rw [if_pos reads]
    rfl

/-- Seventeen digits suffice. -/
theorem onGrid?_seventeen (form : InForm m e) (size : 0 < m) :
    (onGrid? m e (pointPosition (ratio m e).1 (ratio m e).2 - 17) (ratio m e).1 (ratio m e).2).isSome = true := by
  have positive := ratio_pos m e
  have same := ratio_eq m e
  have size' : 0 < (ratio m e).1 := by
    have : (0 : ℚ) < m * 2 ^ e := by positivity
    rw [← same] at this
    by_contra none
    rw [Nat.eq_zero_of_not_pos none] at this
    simp at this
  generalize ratio m e = r at positive same size' ⊢
  obtain ⟨n, d⟩ := r
  dsimp only at positive same size' ⊢
  obtain ⟨low, -⟩ := pointPosition_spec size' positive
  obtain ⟨c, nearest, found⟩ := exists_nearest_onGrid m e (pointPosition n d - 17) n positive
  rw [same] at low nearest
  refine found ((readsBack_iff size c _).mpr (near_of_fine form ?_ nearest))
  calc (10 : ℚ) ^ (pointPosition n d - 17) * 10 ^ 16 = 10 ^ (pointPosition n d - 1) := by
        rw [← zpow_natCast, ← zpow_add₀ (by norm_num)]
        congr 1
        push_cast
        ring
    _ ≤ m * 2 ^ e := low

/-- The shortest digits of a number are those of a decimal that rounds to it. -/
theorem shortest_near (form : InForm m e) (size : 0 < m) :
    IsSignificant (shortest m e).1 ∧ Near m e (decimal (shortest m e).1 (shortest m e).2) := by
  have seventeen := onGrid?_seventeen form size
  unfold shortest
  generalize ratio m e = r at seventeen ⊢
  obtain ⟨n, d⟩ := r
  dsimp only at seventeen ⊢
  generalize search : (List.range 17).findSome? _ = found
  have some : found.isSome = true := by
    rw [← search, List.findSome?_isSome_iff]
    refine ⟨16, by decide, ?_⟩
    rw [Option.isSome_map]
    exact seventeen
  obtain ⟨⟨c, q⟩, rfl⟩ := Option.isSome_iff_exists.mp some
  obtain ⟨k, -, here⟩ := List.exists_of_findSome?_eq_some search
  obtain ⟨c', onGrid, same⟩ := Option.map_eq_some_iff.mp here
  obtain ⟨rfl, rfl⟩ := Prod.mk.inj same
  have near := (readsBack_iff size c' _).mp (readsBack_of_onGrid? onGrid)
  have size' := near.decimal_pos size
  obtain ⟨significant, value⟩ := significant_kept size' (pointPosition n d - (k + 1 : ℕ))
  exact ⟨significant, value.symm ▸ near⟩

/-! ### Reading decimals -/

theorem ofDecimal_zero (negative : Bool) (q : ℤ) : ofDecimal negative 0 q = zero negative := by
  rw [ofDecimal, if_pos rfl]

theorem two_pow_lt_ten_pow : (2 : ℕ) ^ 1075 < 10 ^ 400 := by
  decide +kernel

/-- A decimal that rounds to a number has its size between the powers of ten that bound the numbers. -/
theorem Near.magnitude {c : ℕ} {q : ℤ} (near : Near m e (c * 10 ^ q)) (form : InForm m e) (size : 0 < m) :
    -400 ≤ (Number.digitCount c : ℤ) + q ∧ (Number.digitCount c : ℤ) + q ≤ 400 := by
  obtain ⟨low, high⟩ := Number.digitCount_spec (near.decimal_pos size)
  have step : (0 : ℚ) < 10 ^ q := by positivity
  have ten : (10 : ℚ) ≠ 0 := by norm_num
  have most : (m : ℚ) + 1 ≤ 2 ^ 53 := by exact_mod_cast form.below
  have least : (1 : ℚ) ≤ m := by exact_mod_cast size
  have quarters := cast_quartersBelow_le m e
  constructor
  · have : (10 : ℚ) ^ (-400 : ℤ) < 10 ^ ((Number.digitCount c : ℤ) + q) := by
      calc (10 : ℚ) ^ (-400 : ℤ) ≤ 2 ^ (-1075 : ℤ) := by
            rw [zpow_neg, zpow_neg, inv_le_inv₀ (by positivity) (by positivity)]
            exact_mod_cast two_pow_lt_ten_pow.le
        _ = 2 * 2 ^ (-1076 : ℤ) := by
            rw [← zpow_one_add₀ two_ne_zero]
            rfl
        _ ≤ (4 * m - quartersBelow m e) * 2 ^ (e - 2) := by
          have exponent := zpow_le_zpow_right₀ (one_le_two (α := ℚ)) (show (-1076 : ℤ) ≤ e - 2 by
            have := form.least
            unfold leastExponent at this
            omega)
          have count : (2 : ℚ) ≤ 4 * m - quartersBelow m e := by linarith
          exact mul_le_mul count exponent (by positivity) (by linarith)
        _ ≤ c * 10 ^ q := near.low
        _ < 10 ^ (Number.digitCount c : ℤ) * 10 ^ q := by gcongr
        _ = 10 ^ ((Number.digitCount c : ℤ) + q) := (zpow_add₀ ten _ _).symm
    exact ((zpow_lt_zpow_iff_right₀ (by norm_num)).mp this).le
  · have : (10 : ℚ) ^ ((Number.digitCount c : ℤ) - 1 + q) < 10 ^ (400 : ℤ) := by
      calc (10 : ℚ) ^ ((Number.digitCount c : ℤ) - 1 + q)
          = 10 ^ ((Number.digitCount c : ℤ) - 1) * 10 ^ q := zpow_add₀ ten _ _
        _ ≤ c * 10 ^ q := by gcongr
        _ ≤ (4 * m + 2) * 2 ^ (e - 2) := near.high
        _ ≤ 2 ^ 55 * 2 ^ (969 : ℤ) := by
          have exponent := zpow_le_zpow_right₀ (one_le_two (α := ℚ)) (show e - 2 ≤ (969 : ℤ) by
            have := form.greatest
            unfold greatestExponent at this
            omega)
          have count : (4 * m + 2 : ℚ) ≤ 2 ^ 55 := by linarith
          exact mul_le_mul count exponent (by positivity) (by positivity)
        _ = 2 ^ (1024 : ℤ) := by
            rw [← zpow_natCast, ← zpow_add₀ two_ne_zero]
            rfl
        _ ≤ 2 ^ (1075 : ℤ) := zpow_le_zpow_right₀ one_le_two (by decide)
        _ < 10 ^ (400 : ℤ) := by exact_mod_cast two_pow_lt_ten_pow
    have := (zpow_lt_zpow_iff_right₀ (by norm_num)).mp this
    omega

/-- A decimal that rounds to a number is read as that number. -/
theorem ofDecimal_of_near (negative : Bool) {c : ℕ} {q : ℤ} (form : InForm m e) (size : 0 < m)
    (near : Near m e (c * 10 ^ q)) : ofDecimal negative c q = .finite negative m e := by
  have some := near.decimal_pos size
  obtain ⟨low, high⟩ := near.magnitude form size
  unfold ofDecimal
  dsimp only
  rw [if_neg (by omega), if_neg (by omega), if_neg (by omega)]
  split
  next nonneg =>
    obtain ⟨k, rfl⟩ := Int.eq_ofNat_of_zero_le nonneg
    refine ofRatio_of_near negative form size Nat.one_pos ?_
    simpa using near
  next below =>
    obtain ⟨k, rfl⟩ := Int.exists_eq_neg_ofNat (not_le.mp below).le
    refine ofRatio_of_near negative form size (Nat.pow_pos (by decide)) ?_
    simpa [div_eq_mul_inv] using near

/-- What a decimal is read as is in the form in which numbers are kept. -/
theorem ofDecimal_isKept (negative : Bool) (c : ℕ) (q : ℤ) : (ofDecimal negative c q).IsKept := by
  unfold ofDecimal
  dsimp only
  split
  · exact (zero_isFinite negative).isKept
  · split
    · trivial
    · split
      · exact (zero_isFinite negative).isKept
      · split
        · exact ofRatio_isKept negative _ Nat.one_pos
        · exact ofRatio_isKept negative c (Nat.pow_pos (by decide))

/-- Whatever number a text writes, it is in the form in which numbers are kept. -/
theorem isKept_of_ofText? {origin : ℕ} {s : String} {x : Binary64} (read : ofText? origin s = some x) : x.IsKept := by
  have ofParts {negative : Bool} {digits : Option ℕ} {exponent : Option ℤ} {places : ℕ}
      (read : (do return ofDecimal negative (← digits) ((← exponent) - places)) = some x) : x.IsKept := by
    obtain ⟨c, -, read⟩ := Option.bind_eq_some_iff.mp read
    obtain ⟨e, -, read⟩ := Option.bind_eq_some_iff.mp read
    cases read
    exact ofDecimal_isKept negative c _
  unfold ofText? at read
  dsimp only at read
  split at read
  · cases read
    trivial
  · split at read
    · cases read
      trivial
    · split at read <;> split at read
      · cases read
      · exact ofParts read
      · cases read
      · exact ofParts read

end Binary64
end DocLint
