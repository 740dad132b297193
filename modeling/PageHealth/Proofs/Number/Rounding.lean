import Mathlib.Tactic.Linarith
import Mathlib.Tactic.Ring
import PageHealth.Number.Binary64

namespace PageHealth

/-- Twice the distance to a rounded quotient is at most one divisor, and a tie is even. -/
theorem divNearestEven_spec (num : Nat) {den : Nat} (positive : 0 < den) :
    2 * (divNearestEven num den * den) ≤ 2 * num + den ∧
    2 * num ≤ 2 * (divNearestEven num den * den) + den ∧
    (2 * (divNearestEven num den * den) = 2 * num + den → divNearestEven num den % 2 = 0) ∧
    (2 * num = 2 * (divNearestEven num den * den) + den → divNearestEven num den % 2 = 0) := by
  have split := Nat.div_add_mod' num den
  have small := Nat.mod_lt num positive
  unfold divNearestEven
  generalize num / den = q at *
  generalize num % den = r at *
  dsimp only
  split_ifs with below above
  · refine ⟨?_, ?_, ?_, ?_⟩ <;> omega
  · simp only [Nat.add_mul, Nat.one_mul]
    refine ⟨?_, ?_, ?_, ?_⟩ <;> omega
  · have tie : 2 * r = den := by omega
    rcases Nat.mod_two_eq_zero_or_one q with even | odd
    · rw [even, Nat.add_zero]
      refine ⟨?_, ?_, ?_, ?_⟩ <;> omega
    · rw [odd, Nat.add_mul, Nat.one_mul]
      refine ⟨?_, ?_, ?_, ?_⟩ <;> omega

theorem divNearestEven_mono {num den num' den' : Nat} (positive : 0 < den) (positive' : 0 < den')
    (ordered : num * den' ≤ num' * den) : divNearestEven num den ≤ divNearestEven num' den' := by
  obtain ⟨low, _, evenLow, _⟩ := divNearestEven_spec num positive
  obtain ⟨_, high, _, evenHigh⟩ := divNearestEven_spec num' positive'
  generalize divNearestEven num den = m at *
  generalize divNearestEven num' den' = n at *
  by_contra above
  have step : (n + 1) * (den * den') ≤ m * (den * den') := Nat.mul_le_mul_right _ (by omega)
  have lower : 2 * (m * (den * den')) ≤ 2 * (num * den') + den * den' := by
    have := Nat.mul_le_mul_right den' low
    nlinarith
  have upper : 2 * (num' * den) ≤ 2 * (n * (den * den')) + den * den' := by
    have := Nat.mul_le_mul_right den high
    nlinarith
  have common : 0 < den * den' := Nat.mul_pos positive positive'
  simp only [Nat.add_mul, Nat.one_mul] at step
  have next : m = n + 1 := by
    apply Nat.eq_of_mul_eq_mul_right common
    simp only [Nat.add_mul, Nat.one_mul]
    omega
  have tieLow : 2 * (m * den) = 2 * num + den := by
    apply Nat.eq_of_mul_eq_mul_right positive'
    nlinarith
  have tieHigh : 2 * num' = 2 * (n * den') + den' := by
    apply Nat.eq_of_mul_eq_mul_right positive
    nlinarith
  have := evenLow tieLow
  have := evenHigh tieHigh
  omega

theorem divNearestEven_mul (n : Nat) {den : Nat} (positive : 0 < den) :
    divNearestEven (n * den) den = n := by
  simp [divNearestEven, Nat.mul_div_cancel _ positive, positive]

theorem binadeSize_eq : binadeSize = 2 ^ 52 := by decide

theorem units_shift_add {shift digits : Nat} (above : shift = 0 ∨ binadeSize ≤ digits)
    (below : digits < 2 * binadeSize) : units (shift * binadeSize + digits) = digits * 2 ^ shift := by
  have quotient : (shift * binadeSize + digits) / binadeSize - 1 = shift := by
    unfold binadeSize at *
    omega
  simp only [units, quotient, Nat.add_sub_cancel_left, Nat.pow_eq]

/-- Rounding up past the end of a binade lands on the first rank of the next one. -/
theorem units_binade_end (shift : Nat) :
    units (shift * binadeSize + 2 * binadeSize) = 2 * binadeSize * 2 ^ shift := by
  have := @units_shift_add (shift + 1) binadeSize (.inr (Nat.le_refl _)) (by decide)
  rw [show shift * binadeSize + 2 * binadeSize = (shift + 1) * binadeSize + binadeSize by ring, this]
  ring

theorem rank_decompose (rank : Nat) : ∃ shift digits, rank = shift * binadeSize + digits ∧
    (shift = 0 ∨ binadeSize ≤ digits) ∧ digits < 2 * binadeSize := by
  refine ⟨rank / binadeSize - 1, rank - (rank / binadeSize - 1) * binadeSize, ?_⟩
  unfold binadeSize
  omega

theorem units_lt_units {a b : Nat} (less : a < b) : units a < units b := by
  obtain ⟨k, m, rfl, above, below⟩ := rank_decompose a
  obtain ⟨l, n, rfl, above', below'⟩ := rank_decompose b
  rw [units_shift_add above below, units_shift_add above' below']
  have ordered : k ≤ l := by
    unfold binadeSize at *
    omega
  rcases Nat.eq_or_lt_of_le ordered with rfl | later
  · exact Nat.mul_lt_mul_of_pos_right (by omega) (Nat.two_pow_pos k)
  · have wide : binadeSize ≤ n := by omega
    calc m * 2 ^ k < 2 * binadeSize * 2 ^ k := Nat.mul_lt_mul_of_pos_right below (Nat.two_pow_pos k)
      _ = binadeSize * 2 ^ (k + 1) := by ring
      _ ≤ n * 2 ^ l := Nat.mul_le_mul wide (Nat.pow_le_pow_right (by decide) later)

theorem units_le_units_iff {a b : Nat} : units a ≤ units b ↔ a ≤ b := by
  constructor
  · intro h
    by_contra less
    have := units_lt_units (Nat.lt_of_not_ge less)
    omega
  · intro h
    rcases Nat.eq_or_lt_of_le h with rfl | less
    · exact Nat.le_refl _
    · exact Nat.le_of_lt (units_lt_units less)

@[simp] theorem units_zero : units 0 = 0 := by decide

theorem units_pos_iff {rank : Nat} : 0 < units rank ↔ 0 < rank := by
  rw [← Nat.not_le, ← Nat.not_le, ← units_zero, units_le_units_iff, units_zero]

theorem units_ne_zero_iff {rank : Nat} : units rank ≠ 0 ↔ rank ≠ 0 := by
  rw [← Nat.pos_iff_ne_zero, units_pos_iff, Nat.pos_iff_ne_zero]

/-- The exact value `num / den` lies in the binade of the shift, and so does what it is rounded to,
or at that binade's end. -/
structure RoundsIn (num den shift : Nat) : Prop where
  rank_eq : nearestRank num den = shift * binadeSize + divNearestEven num (den * 2 ^ shift)
  low : shift = 0 ∨ binadeSize * (den * 2 ^ shift) ≤ num
  high : num < 2 * binadeSize * (den * 2 ^ shift)

theorem exists_roundsIn (num : Nat) {den : Nat} (positive : 0 < den) :
    ∃ shift, RoundsIn num den shift := by
  have floorLe : num / den * den ≤ num := Nat.div_mul_le_self num den
  have ltFloor : num < (num / den + 1) * den := by
    rw [Nat.mul_comm]
    exact Nat.lt_mul_div_succ num positive
  refine ⟨(num / den).log2 - 52, by simp only [nearestRank, Nat.pow_eq], ?_, ?_⟩
  all_goals generalize num / den = floor at *
  · by_cases none : floor.log2 - 52 = 0
    · exact .inl none
    · right
      have nonzero : floor ≠ 0 := by rintro rfl; simp at none
      have low := Nat.log2_self_le nonzero
      have exponent : 52 + (floor.log2 - 52) = floor.log2 := by omega
      calc binadeSize * (den * 2 ^ (floor.log2 - 52)) = 2 ^ floor.log2 * den := by
            rw [binadeSize_eq, ← exponent, Nat.add_sub_cancel_left]
            ring
        _ ≤ floor * den := Nat.mul_le_mul_right _ low
        _ ≤ num := floorLe
  · have exponent : floor.log2 + 1 ≤ 53 + (floor.log2 - 52) := by omega
    calc num < (floor + 1) * den := ltFloor
      _ ≤ 2 ^ (floor.log2 + 1) * den := Nat.mul_le_mul_right _ Nat.lt_log2_self
      _ ≤ 2 ^ (53 + (floor.log2 - 52)) * den :=
          Nat.mul_le_mul_right _ (Nat.pow_le_pow_right (by decide) exponent)
      _ = 2 * binadeSize * (den * 2 ^ (floor.log2 - 52)) := by
          rw [binadeSize_eq]
          ring

namespace RoundsIn

variable {num den shift : Nat}

theorem wide (at_ : RoundsIn num den shift) (positive : 0 < den) :
    shift = 0 ∨ binadeSize ≤ divNearestEven num (den * 2 ^ shift) := by
  have step : 0 < den * 2 ^ shift := Nat.mul_pos positive (Nat.two_pow_pos shift)
  refine at_.low.imp_right fun low => ?_
  rw [← divNearestEven_mul binadeSize step]
  exact divNearestEven_mono step step (Nat.mul_le_mul_right _ low)

theorem narrow (at_ : RoundsIn num den shift) (positive : 0 < den) :
    divNearestEven num (den * 2 ^ shift) ≤ 2 * binadeSize := by
  have step : 0 < den * 2 ^ shift := Nat.mul_pos positive (Nat.two_pow_pos shift)
  rw [← divNearestEven_mul (2 * binadeSize) step]
  exact divNearestEven_mono step step (Nat.mul_le_mul_right _ (Nat.le_of_lt at_.high))

theorem units_eq (at_ : RoundsIn num den shift) (positive : 0 < den) :
    units (nearestRank num den) = divNearestEven num (den * 2 ^ shift) * 2 ^ shift := by
  rw [at_.rank_eq]
  rcases Nat.eq_or_lt_of_le (at_.narrow positive) with full | inside
  · rw [full, units_binade_end]
  · exact units_shift_add (at_.wide positive) inside

end RoundsIn

theorem binade_end_le {k l : Nat} (later : k < l) (den : Nat) :
    2 * binadeSize * (den * 2 ^ k) ≤ binadeSize * (den * 2 ^ l) := by
  calc 2 * binadeSize * (den * 2 ^ k) = binadeSize * (den * 2 ^ (k + 1)) := by ring
    _ ≤ binadeSize * (den * 2 ^ l) :=
        Nat.mul_le_mul_left _ (Nat.mul_le_mul_left _ (Nat.pow_le_pow_right (by decide) later))

theorem nearestRank_mono {num den num' den' : Nat} (positive : 0 < den) (positive' : 0 < den')
    (ordered : num * den' ≤ num' * den) : nearestRank num den ≤ nearestRank num' den' := by
  obtain ⟨k, first⟩ := exists_roundsIn num positive
  obtain ⟨l, second⟩ := exists_roundsIn num' positive'
  rw [first.rank_eq, second.rank_eq]
  rcases Nat.lt_trichotomy k l with earlier | rfl | later
  · have := first.narrow positive
    have := (second.wide positive').resolve_left (by omega)
    have : (k + 1) * binadeSize ≤ l * binadeSize := Nat.mul_le_mul_right _ earlier
    rw [Nat.add_mul] at this
    omega
  · have step := Nat.two_pow_pos k
    apply Nat.add_le_add_left
    apply divNearestEven_mono (Nat.mul_pos positive step) (Nat.mul_pos positive' step)
    calc num * (den' * 2 ^ k) = num * den' * 2 ^ k := by ring
      _ ≤ num' * den * 2 ^ k := Nat.mul_le_mul_right _ ordered
      _ = num' * (den * 2 ^ k) := by ring
  · -- The greater value would lie in the earlier binade.
    have above := Nat.mul_le_mul_right den' (first.low.resolve_left (by omega))
    have below := Nat.mul_lt_mul_of_pos_right second.high positive
    have apart := Nat.mul_le_mul_right den (binade_end_le later den')
    have : binadeSize * (den' * 2 ^ k) * den = binadeSize * (den * 2 ^ k) * den' := by ring
    omega

theorem nearestRank_units_mul (rank : Nat) {den : Nat} (positive : 0 < den) :
    nearestRank (units rank * den) den = rank := by
  obtain ⟨k, m, rfl, above, below⟩ := rank_decompose rank
  rw [units_shift_add above below]
  obtain ⟨l, same, low, high⟩ := exists_roundsIn (m * 2 ^ k * den) positive
  have value : m * 2 ^ k * den = m * (den * 2 ^ k) := by ring
  have step : 0 < den * 2 ^ k := Nat.mul_pos positive (Nat.two_pow_pos k)
  have inside : m * (den * 2 ^ k) < 2 * binadeSize * (den * 2 ^ k) :=
    Nat.mul_lt_mul_of_pos_right below step
  have shift : l = k := by
    rw [value] at low high
    rcases Nat.lt_trichotomy l k with earlier | equal | later
    · have := binade_end_le earlier den
      have := Nat.mul_le_mul_right (den * 2 ^ k) (above.resolve_left (by omega))
      omega
    · exact equal
    · have := binade_end_le later den
      have := low.resolve_left (by omega)
      omega
  subst shift
  rw [same, value, divNearestEven_mul m step]
end PageHealth