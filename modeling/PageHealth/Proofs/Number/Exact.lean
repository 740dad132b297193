import Mathlib.Algebra.BigOperators.Ring.List
import Mathlib.Algebra.Order.BigOperators.Group.List
import Mathlib.Data.Rat.Floor
import Mathlib.Tactic.Linarith
import PageHealth.Number.Scalar

namespace PageHealth.Exact

variable {x y : ℚ} {n : ℕ}

@[simp] theorem ofNat_eq (n : ℕ) : (Scalar.ofNat n : ℚ) = n := rfl

theorem sum_eq (xs : List ℚ) : Scalar.sum xs = xs.sum := by
  rw [List.sum_eq_foldl]
  rfl

theorem positivePart_eq (nonneg : 0 ≤ x) : Scalar.positivePart x = x := by
  change (if decide (0 < x) then x else 0) = x
  simp only [decide_eq_true_eq]
  split_ifs with positive
  · rfl
  · exact le_antisymm nonneg (not_lt.mp positive)

theorem clampUnit_eq (nonneg : 0 ≤ x) (part : x ≤ 1) : Scalar.clampUnit x = x := by
  have low : Scalar.less x 0 = false := decide_eq_false (not_lt.mpr nonneg)
  have high : Scalar.less 1 x = false := decide_eq_false (not_lt.mpr part)
  simp [Scalar.clampUnit, low, high]

theorem nearestNat_le (most : x ≤ n) : Scalar.nearestNat x ≤ n := by
  have below : (x + 1 / 2).floor ≤ (n : ℤ) := by
    change ⌊x + 1 / 2⌋ ≤ (n : ℤ)
    rw [← Int.lt_add_one_iff, Int.floor_lt]
    push_cast
    linarith
  change (x + 1 / 2).floor.toNat ≤ n
  omega

theorem nearestNat_mono (ordered : x ≤ y) : Scalar.nearestNat x ≤ Scalar.nearestNat y := by
  apply Int.toNat_le_toNat
  change ⌊x + 1 / 2⌋ ≤ ⌊y + 1 / 2⌋
  apply Int.floor_le_floor
  linarith

end PageHealth.Exact
