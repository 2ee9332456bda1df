import DocLint.Number.Binary64
import Mathlib.Algebra.Order.Field.Power
import Mathlib.Data.Rat.Cast.Order
import Mathlib.Tactic.FieldSimp
import Mathlib.Tactic.Linarith
import Mathlib.Tactic.NormNum
import Mathlib.Tactic.Ring

/-!
# Rounding to the nearest number

A quotient is rounded to the nearest integer, a half to the even one (`Number.RoundsTo`), and to the nearest
floating-point number by rounding it in units of its last place. So a number is what `ofRatio` gives for exactly the
quotients around it that no other number is nearer to (`Binary64.Near`, `ofRatio_of_near`), and what `ofRatio` gives is in
the one form in which numbers are kept (`ofRatio_isKept`).
-/
namespace DocLint

namespace Number

/-- The integers that a number rounds to: no more than a half away, and even where it is a half. -/
structure RoundsTo (x : ℚ) (m : ℕ) : Prop where
  low : (m : ℚ) - 1 / 2 ≤ x
  high : x ≤ m + 1 / 2
  even : x = m - 1 / 2 ∨ x = m + 1 / 2 → m % 2 = 0

/-- There is one such integer. -/
theorem RoundsTo.unique {x : ℚ} {m n : ℕ} (toM : RoundsTo x m) (toN : RoundsTo x n) : m = n := by
  -- Of two different ones the smaller is a half below and the greater a half above, and not both are even.
  have notLess {k l : ℕ} (toK : RoundsTo x k) (toL : RoundsTo x l) : ¬ k < l := by
    intro less
    have apart : (k : ℚ) + 1 ≤ l := by exact_mod_cast less
    have lowL := toL.low
    have highK := toK.high
    have half : x = k + 1 / 2 := by linarith
    have half' : x = l - 1 / 2 := by linarith
    have next : l = k + 1 := by
      have : (l : ℚ) = k + 1 := by linarith
      exact_mod_cast this
    have evenK := toK.even (.inr half)
    have evenL := toL.even (.inl half')
    omega
  have := notLess toM toN
  have := notLess toN toM
  omega

theorem roundDiv_roundsTo (n : ℕ) {d : ℕ} (positive : 0 < d) : RoundsTo ((n : ℚ) / d) (roundDiv n d) := by
  have positive' : (0 : ℚ) < d := by exact_mod_cast positive
  have whole : (n : ℚ) / d = (n / d : ℕ) + (n % d : ℕ) / d := by
    have : (n : ℚ) = d * (n / d : ℕ) + (n % d : ℕ) := by exact_mod_cast (Nat.div_add_mod n d).symm
    field_simp
    linarith
  have start : (0 : ℚ) ≤ (n % d : ℕ) / d := div_nonneg (Nat.cast_nonneg _) positive'.le
  have stop : ((n % d : ℕ) : ℚ) / d < 1 := by
    rw [div_lt_iff₀ positive', one_mul]
    exact_mod_cast Nat.mod_lt n positive
  have below : 2 * (n % d) < d ↔ ((n % d : ℕ) : ℚ) / d < 1 / 2 := by
    rw [div_lt_iff₀ positive', one_div_mul_eq_div, lt_div_iff₀ two_pos, mul_comm]
    exact_mod_cast Iff.rfl
  have above : d < 2 * (n % d) ↔ 1 / 2 < ((n % d : ℕ) : ℚ) / d := by
    rw [lt_div_iff₀ positive', one_div_mul_eq_div, div_lt_iff₀ two_pos, mul_comm ((n % d : ℕ) : ℚ)]
    exact_mod_cast Iff.rfl
  rw [whole]
  generalize ((n % d : ℕ) : ℚ) / d = part at *
  unfold roundDiv
  dsimp only
  split
  next less =>
    rw [below] at less
    exact ⟨by linarith, by linarith, by rintro (half | half) <;> linarith⟩
  next notLess =>
    rw [below, not_lt] at notLess
    split
    next more =>
      rw [above] at more
      exact ⟨by push_cast; linarith, by push_cast; linarith, by push_cast; rintro (half | half) <;> linarith⟩
    next notMore =>
      rw [above, not_lt] at notMore
      split
      next even => exact ⟨by linarith, by linarith, fun _ => even⟩
      next odd => exact ⟨by push_cast; linarith, by push_cast; linarith, fun _ => by omega⟩

end Number

namespace Binary64

/-- The form in which a finite number is kept: with as many digits of its significand as there can be. -/
structure InForm (m : ℕ) (e : ℤ) : Prop where
  below : m < 2 ^ 53
  least : leastExponent ≤ e
  greatest : e ≤ greatestExponent
  full : 2 ^ 52 ≤ m ∨ e = leastExponent

/-- Finite, and in the form in which numbers are kept. -/
def IsFinite : Binary64 → Prop
  | .finite _ m e => InForm m e
  | _ => False

/-- In that form if finite. -/
def IsKept : Binary64 → Prop
  | .finite _ m e => InForm m e
  | _ => True

theorem IsFinite.isKept {x : Binary64} (finite : x.IsFinite) : x.IsKept := by
  cases x with
  | finite negative m e => exact finite
  | infinite => exact finite.elim
  | nan => exact finite.elim

instance (m : ℕ) (e : ℤ) : Decidable (InForm m e) :=
  decidable_of_iff (m < 2 ^ 53 ∧ leastExponent ≤ e ∧ e ≤ greatestExponent ∧ (2 ^ 52 ≤ m ∨ e = leastExponent))
    ⟨fun ⟨below, least, greatest, full⟩ => ⟨below, least, greatest, full⟩,
      fun form => ⟨form.below, form.least, form.greatest, form.full⟩⟩

instance : DecidablePred IsFinite
  | .finite _ m e => inferInstanceAs (Decidable (InForm m e))
  | .infinite _ => isFalse nofun
  | .nan _ => isFalse nofun

instance : DecidablePred IsKept
  | .finite _ m e => inferInstanceAs (Decidable (InForm m e))
  | .infinite _ => isTrue trivial
  | .nan _ => isTrue trivial

/-- How many quarters of a unit below a number still round to it: two, as above it, but one where the numbers below are
half as far from each other. -/
def quartersBelow (m : ℕ) (e : ℤ) : ℕ :=
  if m = 2 ^ 52 ∧ leastExponent < e then 1 else 2

/-- The numbers that round to the one with significand `m` and exponent `e`. -/
structure Near (m : ℕ) (e : ℤ) (x : ℚ) : Prop where
  low : (4 * m - quartersBelow m e : ℚ) * 2 ^ (e - 2) ≤ x
  high : x ≤ (4 * m + 2) * 2 ^ (e - 2)
  inside : m % 2 = 1 → (4 * m - quartersBelow m e : ℚ) * 2 ^ (e - 2) < x ∧ x < (4 * m + 2) * 2 ^ (e - 2)

/-! ### Quotients and powers of two -/

theorem ratio_pos (m : ℕ) (e : ℤ) : 0 < (ratio m e).2 := by
  unfold ratio
  split
  · exact Nat.one_pos
  · exact Nat.two_pow_pos _

/-- The quotient of a significand and an exponent is the number that they write. -/
theorem ratio_eq (m : ℕ) (e : ℤ) : ((ratio m e).1 : ℚ) / (ratio m e).2 = m * 2 ^ e := by
  unfold ratio
  split
  next nonneg =>
    obtain ⟨k, rfl⟩ := Int.eq_ofNat_of_zero_le nonneg
    simp
  next negative =>
    obtain ⟨k, rfl⟩ := Int.exists_eq_neg_ofNat (not_le.mp negative).le
    simp [div_eq_mul_inv]

theorem two_zpow_le_div_iff {n d : ℕ} (positive : 0 < d) (k : ℤ) :
    (if 0 ≤ k then d * Nat.pow 2 k.toNat ≤ n else d ≤ n * Nat.pow 2 (-k).toNat) ↔ (2 : ℚ) ^ k ≤ n / d := by
  have positive' : (0 : ℚ) < d := by exact_mod_cast positive
  rw [le_div_iff₀ positive']
  split
  next nonneg =>
    obtain ⟨j, rfl⟩ := Int.eq_ofNat_of_zero_le nonneg
    rw [mul_comm]
    simp
    exact_mod_cast Iff.rfl
  next negative =>
    obtain ⟨j, rfl⟩ := Int.exists_eq_neg_ofNat (not_le.mp negative).le
    rw [zpow_neg, inv_mul_le_iff₀ (by positivity), mul_comm]
    simp
    exact_mod_cast Iff.rfl

/-- The exponent of a quotient is the one of the greatest power of two in it. -/
theorem ratioLog2_spec {n d : ℕ} (size : 0 < n) (positive : 0 < d) :
    (2 : ℚ) ^ ratioLog2 n d ≤ n / d ∧ (n / d : ℚ) < 2 ^ (ratioLog2 n d + 1) := by
  have positive' : (0 : ℚ) < d := by exact_mod_cast positive
  have lowN : (2 : ℚ) ^ n.log2 ≤ n := by exact_mod_cast Nat.log2_self_le (by omega)
  have highN : (n : ℚ) < 2 ^ (n.log2 + 1) := by exact_mod_cast Nat.lt_log2_self
  have lowD : (2 : ℚ) ^ d.log2 ≤ d := by exact_mod_cast Nat.log2_self_le (by omega)
  have highD : (d : ℚ) < 2 ^ (d.log2 + 1) := by exact_mod_cast Nat.lt_log2_self
  have upper : (n / d : ℚ) < 2 ^ ((n.log2 : ℤ) - d.log2 + 1) := by
    rw [div_lt_iff₀ positive']
    calc (n : ℚ) < 2 ^ (n.log2 + 1) := highN
      _ = 2 ^ ((n.log2 : ℤ) - d.log2 + 1) * 2 ^ d.log2 := by
        rw [← zpow_natCast, ← zpow_natCast, ← zpow_add₀ two_ne_zero]
        congr 1
        push_cast
        ring
      _ ≤ 2 ^ ((n.log2 : ℤ) - d.log2 + 1) * d := by gcongr
  have lower : (2 : ℚ) ^ ((n.log2 : ℤ) - d.log2 - 1) ≤ n / d := by
    rw [le_div_iff₀ positive']
    calc (2 : ℚ) ^ ((n.log2 : ℤ) - d.log2 - 1) * d
        ≤ 2 ^ ((n.log2 : ℤ) - d.log2 - 1) * 2 ^ (d.log2 + 1) := by gcongr
      _ = 2 ^ n.log2 := by
        rw [← zpow_natCast, ← zpow_natCast, ← zpow_add₀ two_ne_zero]
        congr 1
        push_cast
        ring
      _ ≤ n := lowN
  unfold ratioLog2
  dsimp only
  by_cases reached : (2 : ℚ) ^ ((n.log2 : ℤ) - d.log2) ≤ n / d
  · rw [if_pos ((two_zpow_le_div_iff positive _).mpr reached)]
    exact ⟨reached, upper⟩
  · rw [if_neg (mt (two_zpow_le_div_iff positive _).mp reached), sub_add_cancel]
    exact ⟨lower, not_le.mp reached⟩

/-- Only one exponent has its power of two in a number and not the next one. -/
theorem exponent_unique {x : ℚ} {j k : ℤ} (lowJ : (2 : ℚ) ^ j ≤ x) (highJ : x < 2 ^ (j + 1))
    (lowK : (2 : ℚ) ^ k ≤ x) (highK : x < 2 ^ (k + 1)) : j = k := by
  have one := (zpow_lt_zpow_iff_right₀ (one_lt_two (α := ℚ))).mp (lowJ.trans_lt highK)
  have other := (zpow_lt_zpow_iff_right₀ (one_lt_two (α := ℚ))).mp (lowK.trans_lt highJ)
  omega

/-! ### The nearest number -/

/-- A rounded significand with its exponent as a number: one that has become too large is halved, and an exponent that has
become too great is beyond the numbers. -/
def assembled (negative : Bool) (m : ℕ) (e : ℤ) : Binary64 :=
  let (m, e) := if m = Nat.pow 2 53 then (Nat.pow 2 52, e + 1) else (m, e)
  if greatestExponent < e then .infinite negative else .finite negative m e

theorem assembled_of_inForm {m : ℕ} {e : ℤ} (negative : Bool) (form : InForm m e) :
    assembled negative m e = .finite negative m e := by
  have below := form.below
  have greatest := form.greatest
  have differs : ¬ m = Nat.pow 2 53 := by
    rw [Nat.pow_eq]
    omega
  simp only [assembled, if_neg differs]
  rw [if_neg (by omega)]

theorem assembled_carry {e : ℤ} (negative : Bool) (greatest : e < greatestExponent) :
    assembled negative (2 ^ 53) e = .finite negative (2 ^ 52) (e + 1) := by
  simp only [assembled, Nat.pow_eq, if_true]
  rw [if_neg (by omega)]

/-- The exponent of the last place of a quotient's significand. -/
def lastPlace (n d : ℕ) : ℤ :=
  max (ratioLog2 n d - 52) leastExponent

theorem div_mul_pow {e : ℤ} (n d : ℕ) {b : ℕ} (nonneg : 0 ≤ e) :
    (n : ℚ) / (d * Nat.pow b e.toNat : ℕ) = n / d / b ^ e := by
  obtain ⟨k, rfl⟩ := Int.eq_ofNat_of_zero_le nonneg
  simp [div_div]

theorem mul_pow_div {e : ℤ} (n d : ℕ) {b : ℕ} (negative : ¬ 0 ≤ e) :
    ((n * Nat.pow b (-e).toNat : ℕ) : ℚ) / d = n / d / b ^ e := by
  obtain ⟨k, rfl⟩ := Int.exists_eq_neg_ofNat (not_le.mp negative).le
  simp [div_eq_mul_inv]
  ring

theorem ofRatio_eq_assembled (negative : Bool) {n d : ℕ} (size : 0 < n) :
    ofRatio negative n d =
      assembled negative
        (if 0 ≤ lastPlace n d then Number.roundDiv n (d * Nat.pow 2 (lastPlace n d).toNat)
          else Number.roundDiv (n * Nat.pow 2 (-lastPlace n d).toNat) d)
        (lastPlace n d) := by
  rw [ofRatio, if_neg (by omega)]
  rfl

/-- A quotient is rounded in units of its last place. -/
theorem exists_roundsTo (negative : Bool) {n d : ℕ} (size : 0 < n) (positive : 0 < d) :
    ∃ m, Number.RoundsTo ((n : ℚ) / d / 2 ^ lastPlace n d) m ∧
      ofRatio negative n d = assembled negative m (lastPlace n d) := by
  rw [ofRatio_eq_assembled negative size]
  refine ⟨_, ?_, rfl⟩
  generalize lastPlace n d = e
  split
  next nonneg =>
    have rounds := Number.roundDiv_roundsTo n (Nat.mul_pos positive (Nat.two_pow_pos e.toNat))
    have same := div_mul_pow n d (b := 2) nonneg
    rw [Nat.pow_eq] at same ⊢
    rwa [same] at rounds
  next below =>
    have rounds := Number.roundDiv_roundsTo (n * Nat.pow 2 (-e).toNat) positive
    rwa [mul_pow_div n d below] at rounds

/-- A quotient in units of its last place has no more digits than a significand, and as many if its last place is not the
last one of all. -/
theorem lastPlace_spec {n d : ℕ} (size : 0 < n) (positive : 0 < d) :
    (n : ℚ) / d / 2 ^ lastPlace n d < 2 ^ 53 ∧
      (lastPlace n d = leastExponent ∨ (2 : ℚ) ^ 52 ≤ n / d / 2 ^ lastPlace n d) := by
  obtain ⟨low, high⟩ := ratioLog2_spec size positive
  have unit : (0 : ℚ) < 2 ^ lastPlace n d := by positivity
  constructor
  · rw [div_lt_iff₀ unit, ← zpow_natCast, ← zpow_add₀ two_ne_zero]
    refine high.trans_le (zpow_le_zpow_right₀ one_le_two ?_)
    unfold lastPlace
    push_cast
    omega
  · rcases max_choice (ratioLog2 n d - 52) leastExponent with larger | least
    · right
      rw [le_div_iff₀ unit, ← zpow_natCast, ← zpow_add₀ two_ne_zero]
      refine le_trans (zpow_le_zpow_right₀ one_le_two ?_) low
      unfold lastPlace
      push_cast
      omega
    · exact .inl least

theorem zero_isFinite (negative : Bool) : (zero negative).IsFinite :=
  ⟨by decide, by decide, by decide, .inr rfl⟩

/-- What a quotient is rounded to is in the form in which numbers are kept. -/
theorem ofRatio_isKept (negative : Bool) (n : ℕ) {d : ℕ} (positive : 0 < d) : (ofRatio negative n d).IsKept := by
  rcases Nat.eq_zero_or_pos n with rfl | size
  · exact (zero_isFinite negative).isKept
  · obtain ⟨m, rounds, made⟩ := exists_roundsTo negative size positive
    obtain ⟨high, full⟩ := lastPlace_spec size positive
    have least : leastExponent ≤ lastPlace n d := le_max_right _ _
    have most : m ≤ 2 ^ 53 := by
      by_contra more
      have : (2 ^ 53 : ℚ) + 1 ≤ m := by exact_mod_cast not_le.mp more
      have := rounds.low
      linarith
    have full' : 2 ^ 52 ≤ m ∨ lastPlace n d = leastExponent := by
      rcases full with last | reached
      · exact .inr last
      · left
        by_contra less
        have : (m : ℚ) + 1 ≤ 2 ^ 52 := by exact_mod_cast not_le.mp less
        have := rounds.high
        linarith
    rw [made]
    unfold assembled
    by_cases carries : m = Nat.pow 2 53
    · simp only [if_pos carries]
      split
      next => exact trivial
      next within => exact ⟨by decide, by omega, by omega, .inl (by decide)⟩
    · simp only [if_neg carries]
      rw [Nat.pow_eq] at carries
      split
      next => exact trivial
      next within => exact ⟨by omega, least, by omega, full'⟩

theorem IsKept.neg {x : Binary64} (kept : x.IsKept) : x.neg.IsKept := by
  cases x with
  | finite negative m e => exact kept
  | infinite => trivial
  | nan => trivial

theorem IsKept.add {x y : Binary64} (kept : x.IsKept) (kept' : y.IsKept) : (x.add y).IsKept := by
  cases x with
  | finite negative m e =>
    cases y with
    | finite negative' m' e' => exact ofRatio_isKept _ _ (ratio_pos _ _)
    | infinite => trivial
    | nan => trivial
  | infinite => cases y <;> trivial
  | nan => cases y <;> trivial

theorem IsKept.scale {x : Binary64} (kept : x.IsKept) (k : ℕ) : (x.scale k).IsKept := by
  cases x with
  | finite negative m e => exact ofRatio_isKept _ _ (ratio_pos _ _)
  | infinite => trivial
  | nan => trivial

theorem quartersBelow_le (m : ℕ) (e : ℤ) : quartersBelow m e ≤ 2 := by
  unfold quartersBelow
  split <;> omega

theorem cast_quartersBelow_le (m : ℕ) (e : ℤ) : (quartersBelow m e : ℚ) ≤ 2 := by
  exact_mod_cast quartersBelow_le m e

section Near

variable {m : ℕ} {e : ℤ} {x : ℚ}

theorem zpow_sub_two (e : ℤ) : (2 : ℚ) ^ (e - 2) = 2 ^ e / 4 := by
  rw [zpow_sub₀ two_ne_zero]
  norm_num

/-- In units of its last place a number that rounds to another one is not farther from it than a half. -/
theorem Near.scaled_low (near : Near m e x) : (m : ℚ) - quartersBelow m e / 4 ≤ x / 2 ^ e := by
  have low := near.low
  rw [le_div_iff₀ (by positivity)]
  rw [zpow_sub_two] at low
  linarith

theorem Near.scaled_high (near : Near m e x) : x / 2 ^ e ≤ m + 1 / 2 := by
  have high := near.high
  rw [div_le_iff₀ (by positivity)]
  rw [zpow_sub_two] at high
  linarith

theorem Near.roundsTo (near : Near m e x) : Number.RoundsTo (x / 2 ^ e) m := by
  have quarters := cast_quartersBelow_le m e
  have low := near.scaled_low
  refine ⟨by linarith, near.scaled_high, fun half => ?_⟩
  by_contra odd
  obtain ⟨above, below⟩ := near.inside (by omega)
  rw [zpow_sub_two] at above below
  have unit : (0 : ℚ) < 2 ^ e := by positivity
  rcases half with half | half
  · rw [div_eq_iff unit.ne'] at half
    nlinarith
  · rw [div_eq_iff unit.ne'] at half
    linarith

/-- A number that rounds to another one is positive with it. -/
theorem Near.pos (near : Near m e x) (size : 0 < m) : 0 < x := by
  have quarters := cast_quartersBelow_le m e
  have size' : (1 : ℚ) ≤ m := by exact_mod_cast size
  have unit : (0 : ℚ) < 2 ^ (e - 2) := by positivity
  refine lt_of_lt_of_le (mul_pos ?_ unit) near.low
  linarith

/-- The quotients around a number round to it. -/
theorem ofRatio_of_near (negative : Bool) {n d : ℕ} (form : InForm m e) (size : 0 < m) (positive : 0 < d)
    (near : Near m e ((n : ℚ) / d)) : ofRatio negative n d = .finite negative m e := by
  have least := form.least
  have size' : 0 < n := by
    rcases Nat.eq_zero_or_pos n with rfl | size'
    · simpa using near.pos size
    · exact size'
  obtain ⟨k, rounds, made⟩ := exists_roundsTo negative size' positive
  obtain ⟨low, high⟩ := ratioLog2_spec size' positive
  rw [made]
  have unit : (0 : ℚ) < 2 ^ e := by positivity
  have most : (m : ℚ) + 1 ≤ 2 ^ 53 := by exact_mod_cast form.below
  have under : (n : ℚ) / d < 2 ^ (e + 53) := by
    have := near.scaled_high
    rw [zpow_add₀ two_ne_zero, mul_comm, ← div_lt_iff₀ unit]
    norm_num at most ⊢
    linarith
  by_cases reached : (2 : ℚ) ^ 52 ≤ n / d / 2 ^ e ∨ e = leastExponent
  · -- The last place is the one of the number, and the significand is rounded there.
    have place : lastPlace n d = e := by
      have top : ratioLog2 n d < e + 53 := (zpow_lt_zpow_iff_right₀ (one_lt_two (α := ℚ))).mp (low.trans_lt under)
      rcases reached with reached | last
      · have : (2 : ℚ) ^ (e + 52) ≤ n / d := by
          rw [zpow_add₀ two_ne_zero, mul_comm, ← le_div_iff₀ unit]
          exact_mod_cast reached
        have := exponent_unique low high this (by rwa [add_assoc])
        unfold lastPlace
        omega
      · unfold lastPlace
        omega
    rw [place] at rounds ⊢
    rw [rounds.unique near.roundsTo, assembled_of_inForm negative form]
  · -- Just below a power of two the last place is one lower, and the significand is rounded up to the power.
    rw [not_or, not_le] at reached
    obtain ⟨missed, notLast⟩ := reached
    have full := form.full.resolve_right notLast
    have quarters := cast_quartersBelow_le m e
    have above := near.scaled_low
    have power : m = 2 ^ 52 := by
      by_contra more
      have : (2 ^ 52 : ℚ) + 1 ≤ m := by exact_mod_cast (by omega : 2 ^ 52 + 1 ≤ m)
      linarith
    have quarter : quartersBelow m e = 1 := if_pos ⟨power, by omega⟩
    rw [power] at quarter
    rw [power, quarter] at above
    push_cast at above
    have next : (n : ℚ) / d / 2 ^ (e - 1) = 2 * (n / d / 2 ^ e) := by
      rw [zpow_sub_one₀ two_ne_zero]
      field_simp
    have place : lastPlace n d = e - 1 := by
      have start : (2 : ℚ) ^ (e + 51) ≤ n / d := by
        rw [zpow_add₀ two_ne_zero, mul_comm, ← le_div_iff₀ unit]
        norm_num at above ⊢
        linarith
      have stop : (n : ℚ) / d < 2 ^ (e + 51 + 1) := by
        rw [add_assoc, zpow_add₀ two_ne_zero, mul_comm, ← div_lt_iff₀ unit]
        norm_num at missed ⊢
        linarith
      have := exponent_unique low high start stop
      unfold lastPlace
      omega
    rw [place, next] at rounds
    have up : Number.RoundsTo (2 * ((n : ℚ) / d / 2 ^ e)) (2 ^ 53) := by
      refine ⟨?_, ?_, fun _ => by norm_num⟩
      · push_cast
        linarith
      · push_cast
        linarith
    rw [place, rounds.unique up, power, assembled_carry negative (by have := form.greatest; omega), sub_add_cancel]

end Near

end Binary64
end DocLint
