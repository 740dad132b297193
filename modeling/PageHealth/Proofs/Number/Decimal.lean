import PageHealth.Number.Decimal
import PageHealth.Proofs.Number.Order

namespace PageHealth

theorem roundedRank_congr {num den num' den' : Nat} (positive : 0 < den) (positive' : 0 < den')
    (same : num * den' = num' * den) : roundedRank num den = roundedRank num' den' :=
  Nat.le_antisymm (roundedRank_mono positive positive' (Nat.le_of_eq same))
    (roundedRank_mono positive' positive (Nat.le_of_eq same.symm))

theorem nearestRank_eq_zero {num den : Nat} (small : 2 * num < den) : nearestRank num den = 0 := by
  have none : num / den = 0 := Nat.div_eq_of_lt (by omega)
  have rest : num % den = num := Nat.mod_eq_of_lt (by omega)
  simp [nearestRank, none, divNearestEven, rest, small]

namespace Decimal

theorem units_infiniteRank_le {n : Nat} (large : 310 < n) :
    units infiniteRank ≤ 10 ^ n * unitsPerOne := by
  induction n with
  | zero => omega
  | succ n ih =>
    rcases Nat.lt_or_ge 310 n with later | last
    · refine Nat.le_trans (ih later) (Nat.mul_le_mul_right _ ?_)
      exact Nat.pow_le_pow_right (by decide) (Nat.le_succ n)
    · obtain rfl : n = 310 := by omega
      decide +kernel

theorem unitsPerOne_lt {n : Nat} (large : 324 < n) : 2 * unitsPerOne < 10 ^ n := by
  induction n with
  | zero => omega
  | succ n ih =>
    rcases Nat.lt_or_ge 324 n with later | last
    · exact Nat.lt_of_lt_of_le (ih later) (Nat.pow_le_pow_right (by decide) (Nat.le_succ n))
    · obtain rfl : n = 324 := by omega
      decide +kernel

theorem rank_eq (d : Decimal) : d.rank =
    roundedRank (d.digits * 10 ^ d.exponent.toNat * unitsPerOne) (10 ^ (-d.exponent).toNat) := by
  have ten (n : Nat) : 0 < 10 ^ n := Nat.pow_pos (by decide)
  unfold rank
  split_ifs with none large small
  · rw [none, Nat.zero_mul, Nat.zero_mul, roundedRank_zero (ten _)]
  · have whole : (-d.exponent).toNat = 0 := by omega
    rw [whole, Nat.pow_zero, roundedRank_infinite Nat.one_pos]
    calc units infiniteRank * 1 = units infiniteRank := Nat.mul_one _
      _ ≤ 10 ^ d.exponent.toNat * unitsPerOne := units_infiniteRank_le (by omega)
      _ ≤ d.digits * 10 ^ d.exponent.toNat * unitsPerOne :=
          Nat.mul_le_mul_right _ (Nat.le_mul_of_pos_left _ (Nat.pos_of_ne_zero none))
  · have whole : d.exponent.toNat = 0 := by omega
    generalize bits : d.digits.log2 = log at small
    have few : d.digits < 10 ^ ((log + 3) / 3) := by
      calc d.digits < 2 ^ (log + 1) := bits ▸ Nat.lt_log2_self
        _ ≤ 2 ^ (3 * ((log + 3) / 3)) := Nat.pow_le_pow_right (by decide) (by omega)
        _ = 8 ^ ((log + 3) / 3) := by rw [Nat.pow_mul]
        _ ≤ 10 ^ ((log + 3) / 3) := Nat.pow_le_pow_left (by decide) _
    have below : 2 * (d.digits * unitsPerOne) < 10 ^ (-d.exponent).toNat := by
      calc 2 * (d.digits * unitsPerOne) = d.digits * (2 * unitsPerOne) := by ring
        _ ≤ 10 ^ ((log + 3) / 3) * (2 * unitsPerOne) := Nat.mul_le_mul_right _ (Nat.le_of_lt few)
        _ < 10 ^ ((log + 3) / 3) * 10 ^ ((-d.exponent).toNat - (log + 3) / 3) :=
            Nat.mul_lt_mul_of_pos_left (unitsPerOne_lt (by omega)) (ten _)
        _ = 10 ^ (-d.exponent).toNat := by
            rw [← Nat.pow_add]
            exact congrArg (10 ^ ·) (by omega)
    rw [whole, Nat.pow_zero, Nat.mul_one, roundedRank, nearestRank_eq_zero below, Nat.zero_min]
  · rfl

theorem rank_shift (n k : Nat) (exponent : Int) :
    rank ⟨n * 10 ^ k, exponent⟩ = rank ⟨n, exponent + k⟩ := by
  rw [rank_eq, rank_eq]
  refine roundedRank_congr (Nat.pow_pos (by decide)) (Nat.pow_pos (by decide)) ?_
  have split : k + exponent.toNat + (-(exponent + k)).toNat =
      (exponent + k).toNat + (-exponent).toNat := by omega
  generalize unitsPerOne = one
  calc n * 10 ^ k * 10 ^ exponent.toNat * one * 10 ^ (-(exponent + k)).toNat
      = n * one * 10 ^ (k + exponent.toNat + (-(exponent + k)).toNat) := by ring
    _ = n * 10 ^ (exponent + k).toNat * one * 10 ^ (-exponent).toNat := by
        rw [split]
        ring

theorem rank_exact {k : Nat} (unit : unitsPerOne = 2 ^ k) (n : Nat) :
    rank ⟨n * 5 ^ k, -k⟩ = roundedRank (n * 10 ^ k) (10 ^ k) := by
  have whole : (-(k : Int)).toNat = 0 := by omega
  have place : (-(-(k : Int))).toNat = k := by omega
  rw [rank_eq, unit]
  dsimp only
  rw [whole, place, Nat.pow_zero, Nat.mul_one, Nat.mul_assoc, ← Nat.mul_pow]

end Decimal

theorem rank_of_gridNeighbour? {tie : DecimalTie} {rank : Nat} {exponent : Int} {d : Decimal}
    (found : gridNeighbour? tie rank exponent = some d) : d.rank = rank := by
  simp only [gridNeighbour?] at found
  split_ifs at found with below above
  · rw [← Option.some.inj found]
    exact below.1
  · rw [← Option.some.inj found]
    exact above

theorem Decimal.rank_carry (d : Decimal) : d.carry.rank = d.rank := by
  unfold carry
  split_ifs with ten
  · obtain ⟨digits, exponent⟩ := d
    obtain rfl : digits = 1 * 10 ^ 1 := ten
    exact (rank_shift 1 1 exponent).symm
  · rfl

theorem rank_exactDecimal {rank : Nat} (small : rank ≤ infiniteRank) :
    (exactDecimal rank).rank = rank := by
  obtain ⟨k, places⟩ : ∃ k, k = 1074 := ⟨_, rfl⟩
  have unit : unitsPerOne = 2 ^ k := by
    unfold unitsPerOne
    rw [← places]
    exact Nat.pow_eq
  have digits : unitDigits = 5 ^ k := by
    unfold unitDigits
    rw [← places]
    exact Nat.pow_eq
  have place : (-1074 : Int) = -(k : Int) := by omega
  rw [exactDecimal, digits, place, Decimal.rank_exact unit]
  exact roundedRank_units_mul (Nat.pow_pos (by decide)) small

theorem rank_shortestDecimal (tie : DecimalTie) {rank : Nat} (small : rank ≤ infiniteRank) :
    (shortestDecimal tie rank).rank = rank := by
  unfold shortestDecimal
  cases found : shortestNeighbour? tie rank with
  | none => exact rank_exactDecimal small
  | some d =>
    obtain ⟨_, _, neighbour⟩ := List.exists_of_findSome?_eq_some found
    exact d.rank_carry.trans (rank_of_gridNeighbour? neighbour)

end PageHealth
