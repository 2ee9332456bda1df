import DocLint.Path.Basic
import Mathlib.Algebra.Field.Rat
import Mathlib.Algebra.Order.Ring.Rat

/-!
# Sameness of keys and paths

Scalars that count as one key are the same or denote the same number or instant (`Scalar.same_iff`). So
sameness of paths is transitive (`Path.same_trans`): what is once marked as seen stands for all paths that
are the same.
-/
namespace DocLint

namespace Binary64

/-- Scaled numbers are compared by their exact values. -/
theorem compareScaled_eq_iff (a d b e : Int) :
    compareScaled a d b e = .eq ↔ (a : ℚ) * 2 ^ d = b * 2 ^ e := by
  have raised : ∀ k, min d e ≤ k →
      (2 : ℚ) ^ (k - min d e).toNat * 2 ^ (min d e) = 2 ^ k := by
    intro k above
    rw [← zpow_natCast, ← zpow_add₀ two_ne_zero, Int.toNat_of_nonneg (by omega)]
    congr 1
    omega
  have unit : (2 : ℚ) ^ (min d e) ≠ 0 := zpow_ne_zero _ two_ne_zero
  rw [compareScaled, compare_eq_iff_eq, ← raised d (by omega), ← raised e (by omega),
    ← mul_assoc, ← mul_assoc, mul_left_inj' unit]
  exact_mod_cast Iff.rfl

end Binary64

namespace Scalar

/-- What a numeric reading denotes: a rational number, or an infinity by its sign. -/
def denoted? : Int ⊕ Binary64 → Option (Bool ⊕ ℚ)
  | .inl i => some (.inr i)
  | .inr (.finite s m e) => some (.inr (Binary64.signed s m * 2 ^ e))
  | .inr (.infinite s) => some (.inl s)
  | .inr (.nan _) => none

/-- Numeric readings are equal when both denote the same. -/
theorem compareNumbers?_eq_iff (x y : Int ⊕ Binary64) :
    compareNumbers? x y = some .eq ↔ denoted? x ≠ none ∧ denoted? x = denoted? y := by
  have signs : ∀ s : Bool, (if s then Ordering.lt else .gt) ≠ .eq := by decide
  have signs' : ∀ s : Bool, (if s then Ordering.gt else .lt) ≠ .eq := by decide
  rcases x with i | (⟨s, m, e⟩ | s | _) <;> rcases y with j | (⟨t, n, f⟩ | t | _)
  all_goals
    simp [compareNumbers?, Binary64.compareInt?, Binary64.compare?, denoted?,
      Binary64.compareScaled_eq_iff, signs, signs']
  case inl.inr.finite => exact eq_comm

/-- The number that a scalar denotes, if it is one. -/
def number (a : Scalar) : Option (Bool ⊕ ℚ) :=
  a.number?.bind denoted?

/-- Scalars count as one when they are the same scalar, times of one instant, or denote one number. -/
theorem same_iff (a b : Scalar) :
    a.same b = true ↔ a = b ∨ (∃ s t, a = .datetime s ∧ b = .datetime t ∧ s.same t = true) ∨
      (a.number ≠ none ∧ a.number = b.number) := by
  cases a <;> cases b
  all_goals
    simp [same, number, number?, compareNumbers?_eq_iff]

/-- Sameness of scalars is transitive. -/
theorem same_trans {a b c : Scalar} (first : a.same b = true) (second : b.same c = true) :
    a.same c = true := by
  rw [same_iff] at *
  rcases first with rfl | ⟨s, t, rfl, rfl, equal⟩ | ⟨some, equal⟩
  · exact second
  · rcases second with rfl | ⟨t', u, same, rfl, equal'⟩ | ⟨some, _⟩
    · exact Or.inr (Or.inl ⟨s, t, rfl, rfl, equal⟩)
    · cases same
      simp only [DateTime.same, Bool.and_eq_true, beq_iff_eq] at equal equal'
      refine Or.inr (Or.inl ⟨s, u, rfl, rfl, ?_⟩)
      simp only [DateTime.same, equal.1, equal'.1, equal.2, equal'.2, beq_self_eq_true, Bool.and_self]
    · exact absurd rfl some
  · rcases second with rfl | ⟨t, u, rfl, rfl, _⟩ | ⟨_, equal'⟩
    · exact Or.inr (Or.inr ⟨some, equal⟩)
    · exact absurd equal some
    · exact Or.inr (Or.inr ⟨some, equal.trans equal'⟩)

end Scalar

namespace Path

/-- Sameness of paths is transitive. -/
theorem same_trans {p q r : Path} (first : p.same q = true) (second : q.same r = true) :
    p.same r = true := by
  induction p generalizing q r with
  | nil =>
    cases q with
    | nil => exact second
    | cons t q => cases first
  | cons s p ih =>
    cases q with
    | nil => cases first
    | cons t q =>
      cases r with
      | nil => cases second
      | cons u r =>
        simp only [same, List.isEqv, Bool.and_eq_true] at first second ⊢
        exact ⟨Scalar.same_trans first.1 second.1, ih first.2 second.2⟩

end Path
end DocLint
