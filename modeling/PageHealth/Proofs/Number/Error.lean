import Mathlib.Algebra.BigOperators.Group.List.Basic
import Mathlib.Algebra.Order.Field.Rat
import Mathlib.Tactic.FieldSimp
import Mathlib.Tactic.Positivity
import PageHealth.Proofs.Number.Sum

/-! How far results are from the exact ones. One operation is off by a fixed part of its result, and
where magnitudes are subnormal by half a unit; a sum is off by as many such parts as it has terms. -/
namespace PageHealth

/-- The part of a result that rounding may change. -/
def roundoff : ℚ := 1 / 2 ^ 53

def underflow : ℚ := 1 / (2 * unitsPerOne)

theorem roundoff_pos : 0 < roundoff := by norm_num [roundoff]

theorem underflow_nonneg : 0 ≤ underflow := by unfold underflow; positivity

/-- The two sides of rounding: it moves a number by at most half a step, and a step is one unit or a
small part of the number, before and after. -/
theorem nearestRank_step (num : Nat) {den : Nat} (positive : 0 < den) :
    ∃ step, 2 * (units (nearestRank num den) * den) ≤ 2 * num + step ∧
      2 * num ≤ 2 * (units (nearestRank num den) * den) + step ∧
      (step = den ∨ binadeSize * step ≤ num ∧
        binadeSize * step ≤ units (nearestRank num den) * den) := by
  obtain ⟨shift, binade⟩ := exists_roundsIn num positive
  have stepPos : 0 < den * 2 ^ shift := Nat.mul_pos positive (Nat.two_pow_pos shift)
  obtain ⟨low, high, -⟩ := divNearestEven_spec num stepPos
  have wide := binade.wide positive
  have value := binade.units_eq positive
  generalize divNearestEven num (den * 2 ^ shift) = digits at *
  have whole : units (nearestRank num den) * den = digits * (den * 2 ^ shift) := by
    rw [value]
    ring
  refine ⟨den * 2 ^ shift, by rwa [whole], by rwa [whole], ?_⟩
  by_cases least : shift = 0
  · left
    rw [least, Nat.pow_zero, Nat.mul_one]
  · right
    rw [whole]
    exact ⟨binade.low.resolve_left least, Nat.mul_le_mul_right _ (wide.resolve_left least)⟩

theorem nearestRank_one_step (num : Nat) :
    ∃ step, 2 * units (nearestRank num 1) ≤ 2 * num + step ∧
      2 * num ≤ 2 * units (nearestRank num 1) + step ∧
      binadeSize * step ≤ units (nearestRank num 1) := by
  obtain ⟨step, low, high, small⟩ := nearestRank_step num Nat.one_pos
  rw [Nat.mul_one] at *
  rcases small with rfl | ⟨-, small⟩
  · exact ⟨0, by omega, by omega, Nat.zero_le _⟩
  · exact ⟨step, low, high, small⟩

theorem binadeSize_cast : (binadeSize : ℚ) = 2 ^ 52 := by norm_num [binadeSize]

theorem abs_units_nearestRank_sub_le (num : Nat) {den : Nat} (positive : 0 < den) :
    |(units (nearestRank num den) : ℚ) * den - num| ≤ roundoff * num + den / 2 := by
  obtain ⟨step, low, high, small⟩ := nearestRank_step num positive
  have low : 2 * ((units (nearestRank num den) : ℚ) * den) ≤ 2 * num + step := by exact_mod_cast low
  have high : 2 * (num : ℚ) ≤ 2 * (units (nearestRank num den) * den) + step := by
    exact_mod_cast high
  have half : (step : ℚ) / 2 ≤ roundoff * num + den / 2 := by
    have nonneg : (0 : ℚ) ≤ num := Nat.cast_nonneg num
    have nonneg' : (0 : ℚ) ≤ den := Nat.cast_nonneg den
    rcases small with rfl | ⟨small, -⟩
    · have := mul_nonneg roundoff_pos.le nonneg
      linarith
    · have small : 2 ^ 52 * (step : ℚ) ≤ num := by
        rw [← binadeSize_cast]
        exact_mod_cast small
      unfold roundoff
      linarith
  rw [abs_le]
  constructor <;> linarith

theorem abs_units_nearestRank_one_sub_le (num : Nat) :
    |(units (nearestRank num 1) : ℚ) - num| ≤ roundoff * units (nearestRank num 1) := by
  obtain ⟨step, low, high, small⟩ := nearestRank_one_step num
  have low : 2 * (units (nearestRank num 1) : ℚ) ≤ 2 * num + step := by exact_mod_cast low
  have high : 2 * (num : ℚ) ≤ 2 * units (nearestRank num 1) + step := by exact_mod_cast high
  have small : 2 ^ 52 * (step : ℚ) ≤ units (nearestRank num 1) := by
    rw [← binadeSize_cast]
    exact_mod_cast small
  unfold roundoff
  rw [abs_le]
  constructor <;> linarith

namespace Binary64

/-- The number that a double stands for; infinities and NaNs get numbers that mean nothing. -/
def value : Binary64 → ℚ
  | .nan => 0
  | .signed negative rank => signedUnits negative rank / unitsPerOne

variable {x y : Binary64} {a b : Nat}

theorem unitsPerOne_cast_pos : (0 : ℚ) < unitsPerOne := Nat.cast_pos.mpr unitsPerOne_pos

theorem HasRank.value_eq (h : HasRank x a) : x.value = units a / unitsPerOne := by
  obtain ⟨negative, rank, rfl, same, exact, -⟩ := h.exists_signed
  rw [value, same, exact, Int.cast_natCast]

theorem value_nonneg (hx : 0 ≤ x) : 0 ≤ x.value := by
  obtain ⟨a, ha⟩ := nonneg_iff.mp hx
  rw [ha.value_eq]
  positivity

theorem value_zero : (0 : Binary64).value = 0 := by
  rw [hasRank_zero.value_eq, units_zero, Nat.cast_zero, zero_div]

theorem value_pos (positive : 0 < x) : 0 < x.value := by
  obtain ⟨a, ha⟩ := nonneg_iff.mp (le_of_lt positive)
  rw [ha.value_eq]
  have := units_pos_iff.mpr ((hasRank_zero.lt_iff ha).mp positive)
  exact div_pos (Nat.cast_pos.mpr this) unitsPerOne_cast_pos

theorem value_le_value (hx : 0 ≤ x) (ordered : x ≤ y) : x.value ≤ y.value := by
  obtain ⟨a, ha⟩ := nonneg_iff.mp hx
  obtain ⟨b, hb⟩ := nonneg_iff.mp (le_trans hx ordered)
  rw [ha.value_eq, hb.value_eq]
  have := units_le_units_iff.mpr ((ha.le_iff hb).mp ordered)
  exact div_le_div_of_nonneg_right (Nat.cast_le.mpr this) unitsPerOne_cast_pos.le

theorem HasRank.eq_nearestRank {num den : Nat} (h : HasRank x (roundedRank num den))
    (finite : x.isFinite) : roundedRank num den = nearestRank num den := by
  have := h.isFinite_iff.mp finite
  unfold roundedRank at *
  omega

theorem abs_value_add_sub_le (hx : 0 ≤ x) (hy : 0 ≤ y) (finite : (x + y).isFinite) :
    |(x + y).value - (x.value + y.value)| ≤ roundoff * (x + y).value := by
  obtain ⟨a, ha⟩ := nonneg_iff.mp hx
  obtain ⟨b, hb⟩ := nonneg_iff.mp hy
  have sum := ha.add hb
  rw [sum.eq_nearestRank finite] at sum
  have error := abs_units_nearestRank_one_sub_le (units a + units b)
  rw [ha.value_eq, hb.value_eq, sum.value_eq, ← add_div, ← sub_div, abs_div,
    abs_of_pos unitsPerOne_cast_pos, mul_div_assoc']
  exact div_le_div_of_nonneg_right (by exact_mod_cast error) unitsPerOne_cast_pos.le

/-- One rounding of a fraction, given in units: it is off by a part of the fraction and half a unit. -/
theorem HasRank.abs_value_sub_le {num den : Nat} (h : HasRank x (roundedRank num den))
    (positive : 0 < den) (finite : x.isFinite) :
    |x.value - num / (den * unitsPerOne)| ≤ roundoff * (num / (den * unitsPerOne)) + underflow := by
  rw [h.eq_nearestRank finite] at h
  have error := abs_units_nearestRank_sub_le num positive
  have parts : (0 : ℚ) < den := Nat.cast_pos.mpr positive
  have one_pos := unitsPerOne_cast_pos
  rw [h.value_eq, underflow]
  generalize (units (nearestRank num den) : ℚ) = rounded at *
  generalize (unitsPerOne : ℚ) = one at *
  have scaled : rounded / one - num / (den * one) = (rounded * den - num) / (den * one) := by
    field_simp
  rw [scaled, abs_div, abs_of_pos (mul_pos parts one_pos), div_le_iff₀ (by positivity)]
  refine error.trans_eq ?_
  field_simp

theorem abs_value_mul_sub_le (hx : 0 ≤ x) (hy : 0 ≤ y) (finiteX : x.isFinite)
    (finiteY : y.isFinite) (finite : (x * y).isFinite) :
    |(x * y).value - x.value * y.value| ≤ roundoff * (x.value * y.value) + underflow := by
  obtain ⟨a, ha⟩ := nonneg_iff.mp hx
  obtain ⟨b, hb⟩ := nonneg_iff.mp hy
  have product := ha.mul hb (ha.isFinite_iff.mp finiteX) (hb.isFinite_iff.mp finiteY)
  have exact : x.value * y.value = (units a * units b : Nat) / (unitsPerOne * unitsPerOne) := by
    rw [ha.value_eq, hb.value_eq, div_mul_div_comm, Nat.cast_mul]
  rw [exact]
  exact product.abs_value_sub_le unitsPerOne_pos finite

theorem abs_value_div_sub_le (hx : 0 ≤ x) (hy : 0 < y) (finiteX : x.isFinite)
    (finiteY : y.isFinite) (finite : (x / y).isFinite) :
    |(x / y).value - x.value / y.value| ≤ roundoff * (x.value / y.value) + underflow := by
  obtain ⟨a, ha⟩ := nonneg_iff.mp hx
  obtain ⟨b, hb⟩ := nonneg_iff.mp (le_of_lt hy)
  have divisor := (hasRank_zero.lt_iff hb).mp hy
  have quotient := ha.div hb (ha.isFinite_iff.mp finiteX) divisor
  have apart : b ≠ infiniteRank := Nat.ne_of_lt (hb.isFinite_iff.mp finiteY)
  rw [quotientRank, if_neg apart] at quotient
  have one_ne := unitsPerOne_cast_pos.ne'
  have exact : x.value / y.value = (units a * unitsPerOne : Nat) / (units b * unitsPerOne) := by
    rw [ha.value_eq, hb.value_eq, div_div_div_cancel_right₀ one_ne, Nat.cast_mul,
      mul_div_mul_right _ _ one_ne]
  rw [exact]
  exact quotient.abs_value_sub_le (units_pos_iff.mpr divisor) finite

theorem abs_value_foldl_add_sub_le {start : Binary64} {xs : List Binary64} (hstart : 0 ≤ start)
    (nonneg : ∀ x ∈ xs, 0 ≤ x) (finite : (xs.foldl (· + ·) start).isFinite) :
    |(xs.foldl (· + ·) start).value - (start.value + (xs.map value).sum)| ≤
      xs.length * roundoff * (xs.foldl (· + ·) start).value := by
  induction xs generalizing start with
  | nil => simp
  | cons x xs ih =>
    have hx := nonneg x List.mem_cons_self
    have others := fun y hy => nonneg y (List.mem_cons_of_mem _ hy)
    have partialSum := add_nonneg hstart hx
    obtain ⟨_, grows⟩ := foldl_add_nonneg partialSum others
    have rest := ih partialSum others finite
    have first := abs_value_add_sub_le hstart hx (isFinite_of_le partialSum grows finite)
    have small := mul_le_mul_of_nonneg_left (value_le_value partialSum grows) roundoff_pos.le
    simp only [List.foldl_cons, List.map_cons, List.sum_cons, List.length_cons, Nat.cast_add,
      Nat.cast_one] at *
    rw [abs_le] at *
    constructor <;> linarith [rest.1, rest.2, first.1, first.2]

theorem abs_value_sum_sub_le {xs : List Binary64} (nonneg : ∀ x ∈ xs, 0 ≤ x)
    (finite : (Scalar.sum xs).isFinite) :
    |(Scalar.sum xs).value - (xs.map value).sum| ≤ xs.length * roundoff * (Scalar.sum xs).value := by
  have error := abs_value_foldl_add_sub_le (nonneg_iff.mpr ⟨0, hasRank_zero⟩) nonneg finite
  rwa [value_zero, zero_add] at error

theorem unitsPerOne_split {k l : Nat} (together : k + l = 1074) : unitsPerOne = 2 ^ k * 2 ^ l := by
  unfold unitsPerOne
  rw [← together]
  exact Nat.pow_add 2 k l

theorem exists_units_eq {n : Nat} (small : n < 2 * binadeSize) :
    ∃ rank ≤ infiniteRank, units rank = n * unitsPerOne := by
  rcases Nat.eq_zero_or_pos n with rfl | positive
  · exact ⟨0, Nat.zero_le _, by rw [units_zero, Nat.zero_mul]⟩
  · have low := Nat.log2_self_le (Nat.ne_of_gt positive)
    have high : n < 2 ^ (n.log2 + 1) := Nat.lt_log2_self
    generalize n.log2 = bits at *
    have bound : bits ≤ 52 := by
      by_contra above
      have : 2 ^ 53 ≤ 2 ^ bits := Nat.pow_le_pow_right (by decide) (by omega)
      have : 2 * binadeSize = 2 ^ 53 := by decide
      omega
    have wide : binadeSize ≤ n * 2 ^ (52 - bits) := by
      calc binadeSize = 2 ^ bits * 2 ^ (52 - bits) := by
            rw [← Nat.pow_add, Nat.add_sub_cancel' bound, binadeSize_eq]
        _ ≤ n * 2 ^ (52 - bits) := Nat.mul_le_mul_right _ low
    have narrow : n * 2 ^ (52 - bits) < 2 * binadeSize := by
      calc n * 2 ^ (52 - bits) < 2 ^ (bits + 1) * 2 ^ (52 - bits) :=
            Nat.mul_lt_mul_of_pos_right high (Nat.two_pow_pos _)
        _ = 2 * binadeSize := by
            rw [← Nat.pow_add, show bits + 1 + (52 - bits) = 53 by omega]
            decide
    refine ⟨(1022 + bits) * binadeSize + n * 2 ^ (52 - bits), ?_, ?_⟩
    · unfold infiniteRank
      have : (1022 + bits) * binadeSize ≤ 1074 * binadeSize := Nat.mul_le_mul_right _ (by omega)
      omega
    · rw [units_shift_add (.inr wide) narrow, Nat.mul_assoc, ← unitsPerOne_split (by omega)]

theorem value_ofNat {n : Nat} (small : n < 2 * binadeSize) : (ofNat n).value = n := by
  obtain ⟨rank, fits, exact⟩ := exists_units_eq small
  have ranked := hasRank_ofNat n
  rw [← exact, ← Nat.mul_one (units rank), roundedRank_units_mul Nat.one_pos fits] at ranked
  rw [ranked.value_eq, exact, Nat.cast_mul, mul_div_assoc, div_self unitsPerOne_cast_pos.ne',
    mul_one]

theorem nearestNat_eq_of_value (hx : 0 ≤ x) (finite : x.isFinite) {n : Nat}
    (near : |x.value - n| < 1 / 2) : x.nearestNat = n := by
  obtain ⟨a, ha⟩ := nonneg_iff.mp hx
  rw [ha.value_eq, abs_lt] at near
  rw [ha.nearestNat_eq (ha.isFinite_iff.mp finite)]
  obtain ⟨low, high⟩ := near
  have positive := unitsPerOne_cast_pos
  rw [lt_sub_iff_add_lt, lt_div_iff₀ positive] at low
  rw [sub_lt_iff_lt_add, div_lt_iff₀ positive] at high
  apply Nat.div_eq_of_lt_le
  · have : (n : ℚ) * (2 * unitsPerOne) ≤ 2 * units a + unitsPerOne := by linarith
    exact_mod_cast this
  · have : (2 * units a + unitsPerOne : ℚ) < (n + 1) * (2 * unitsPerOne) := by linarith
    exact_mod_cast this

end Binary64

end PageHealth
