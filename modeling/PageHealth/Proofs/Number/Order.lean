import Mathlib.Order.Defs.LinearOrder
import PageHealth.Number.Scalar
import PageHealth.Proofs.Number.Rounding

/-! The order of doubles and the operations that keep it. A number that is not negative is known by
the rank of its magnitude, so each law is one about ranks. -/
namespace PageHealth

def roundedRank (num den : Nat) : Nat := min (nearestRank num den) infiniteRank

theorem roundedRank_le (num den : Nat) : roundedRank num den ≤ infiniteRank := Nat.min_le_right _ _

theorem roundedRank_mono {num den num' den' : Nat} (positive : 0 < den) (positive' : 0 < den')
    (ordered : num * den' ≤ num' * den) : roundedRank num den ≤ roundedRank num' den' :=
  min_le_min_right _ (nearestRank_mono positive positive' ordered)

theorem roundedRank_units_mul {rank den : Nat} (positive : 0 < den) (small : rank ≤ infiniteRank) :
    roundedRank (units rank * den) den = rank := by
  rw [roundedRank, nearestRank_units_mul rank positive, Nat.min_eq_left small]

theorem roundedRank_le_of_le {rank num den : Nat} (positive : 0 < den) (small : rank ≤ infiniteRank)
    (ordered : num ≤ units rank * den) : roundedRank num den ≤ rank := by
  rw [← roundedRank_units_mul positive small]
  exact roundedRank_mono positive positive (Nat.mul_le_mul_right _ ordered)

theorem le_roundedRank_of_le {rank num den : Nat} (positive : 0 < den) (small : rank ≤ infiniteRank)
    (ordered : units rank * den ≤ num) : rank ≤ roundedRank num den := by
  rw [← @roundedRank_units_mul rank den positive small]
  exact roundedRank_mono positive positive (Nat.mul_le_mul_right _ ordered)

theorem roundedRank_infinite {num den : Nat} (positive : 0 < den)
    (large : units infiniteRank * den ≤ num) : roundedRank num den = infiniteRank :=
  Nat.le_antisymm (roundedRank_le _ _) (le_roundedRank_of_le positive (Nat.le_refl _) large)

theorem roundedRank_zero {den : Nat} (positive : 0 < den) : roundedRank 0 den = 0 := by
  have := roundedRank_units_mul positive (Nat.zero_le infiniteRank)
  rwa [units_zero, Nat.zero_mul] at this

theorem infiniteRank_ne_zero : infiniteRank ≠ 0 := by decide

theorem unitsPerOne_pos : 0 < unitsPerOne := by decide +kernel

def rankOfOne : Nat := 1023 * binadeSize

theorem units_rankOfOne : units rankOfOne = unitsPerOne := by decide +kernel

namespace Binary64

instance : LE Binary64 := ⟨fun x y => x.atMost y = true⟩

instance : DecidableLE Binary64 := fun x y => inferInstanceAs (Decidable (x.atMost y = true))

instance : LT Binary64 := ⟨fun x y => x.less y = true⟩

instance : DecidableLT Binary64 := fun x y => inferInstanceAs (Decidable (x.less y = true))

instance : Zero Binary64 := ⟨ofNat 0⟩

instance : One Binary64 := ⟨ofNat 1⟩

/-- A number that is not negative, by the rank of its magnitude. Both zeros have rank zero. -/
def HasRank (x : Binary64) (rank : Nat) : Prop := x.place = some (rank : Int)

variable {x y x' y' : Binary64} {a b c d : Nat}

theorem HasRank.cases (h : HasRank x a) :
    (∃ small, x = .signed false ⟨a, small⟩) ∨ (x = .signed true 0 ∧ a = 0) := by
  cases x with
  | nan => cases h
  | signed negative rank =>
    cases negative with
    | false =>
      have same : (rank.val : Int) = a := Option.some.inj h
      obtain rfl : rank.val = a := by omega
      exact .inl ⟨rank.isLt, rfl⟩
    | true =>
      have same : -(rank.val : Int) = a := Option.some.inj h
      have none : rank.val = (0 : Fin (infiniteRank + 1)).val := by
        rw [Fin.val_zero]
        omega
      exact .inr ⟨congrArg _ (Fin.ext none), by omega⟩

theorem HasRank.le (h : HasRank x a) : a ≤ infiniteRank := by
  rcases h.cases with ⟨small, _⟩ | ⟨_, rfl⟩
  · omega
  · exact Nat.zero_le _

theorem HasRank.le_iff (hx : HasRank x a) (hy : HasRank y b) : x ≤ y ↔ a ≤ b := by
  change x.atMost y = true ↔ a ≤ b
  simp [atMost, show x.place = _ from hx, show y.place = _ from hy]

theorem HasRank.lt_iff (hx : HasRank x a) (hy : HasRank y b) : x < y ↔ a < b := by
  change x.less y = true ↔ a < b
  simp [less, show x.place = _ from hx, show y.place = _ from hy]

theorem HasRank.isFinite_iff (h : HasRank x a) : x.isFinite = true ↔ a < infiniteRank := by
  rcases h.cases with ⟨small, rfl⟩ | ⟨rfl, rfl⟩
  · simp [isFinite]
  · simp [isFinite, infiniteRank, binadeSize]

/-- Rounding gives the nearest rank; of a negative sign only a zero is not negative. -/
theorem hasRank_round {negative : Bool} {num den : Nat} (positive : 0 < den)
    (plus : num ≠ 0 → negative = false) :
    HasRank (round negative num den) (roundedRank num den) := by
  cases negative with
  | false => rfl
  | true =>
    obtain rfl : num = 0 := by
      by_contra some
      cases plus some
    have zero := roundedRank_zero positive
    unfold roundedRank at zero
    simp [HasRank, round, place, roundedRank, zero]

theorem hasRank_round_zero (negative : Bool) {den : Nat} (positive : 0 < den) :
    HasRank (round negative 0 den) 0 := by
  have least := @hasRank_round negative 0 den positive fun some => absurd rfl some
  rwa [roundedRank_zero positive] at least

theorem hasRank_ofNat (n : Nat) : HasRank (ofNat n) (roundedRank (n * unitsPerOne) 1) := rfl

theorem ofNat_le_ofNat {m n : Nat} (ordered : m ≤ n) : ofNat m ≤ ofNat n := by
  refine ((hasRank_ofNat m).le_iff (hasRank_ofNat n)).mpr ?_
  apply roundedRank_mono Nat.one_pos Nat.one_pos
  generalize unitsPerOne = one
  exact Nat.mul_le_mul_right _ (Nat.mul_le_mul_right _ ordered)

theorem ofNat_nonneg (n : Nat) : 0 ≤ ofNat n := ofNat_le_ofNat (Nat.zero_le n)

theorem hasRank_zero : HasRank 0 0 := by
  change HasRank (round false (0 * unitsPerOne) 1) 0
  rw [Nat.zero_mul]
  exact hasRank_round_zero false Nat.one_pos

theorem hasRank_one : HasRank 1 rankOfOne := by
  have := hasRank_ofNat 1
  rwa [Nat.one_mul, ← units_rankOfOne, ← Nat.mul_one (units rankOfOne),
    roundedRank_units_mul Nat.one_pos (by decide)] at this

theorem nonneg_iff : 0 ≤ x ↔ ∃ a, HasRank x a := by
  constructor
  · intro h
    change (0 : Binary64).atMost x = true at h
    rw [atMost, show (0 : Binary64).place = some 0 from hasRank_zero] at h
    cases located : x.place with
    | none => simp [located] at h
    | some p =>
      have : 0 ≤ p := by simpa [located] using h
      exact ⟨p.toNat, by simp [HasRank, located, this]⟩
  · rintro ⟨a, h⟩
    exact (hasRank_zero.le_iff h).mpr (Nat.zero_le a)

theorem HasRank.exists_signed (h : HasRank x a) :
    ∃ (negative : Bool) (rank : Fin (infiniteRank + 1)), x = .signed negative rank ∧ rank.val = a ∧
      signedUnits negative a = units a ∧ (a ≠ 0 → negative = false) := by
  rcases h.cases with ⟨small, rfl⟩ | ⟨rfl, rfl⟩
  · exact ⟨false, _, rfl, rfl, by simp [signedUnits], fun _ => rfl⟩
  · exact ⟨true, _, rfl, rfl, by simp [signedUnits], fun absurd => (absurd rfl).elim⟩

/-- Infinity is no exception: its units are so many that any sum with them rounds to infinity. -/
theorem HasRank.add (hx : HasRank x a) (hy : HasRank y b) :
    HasRank (x + y) (roundedRank (units a + units b) 1) := by
  obtain ⟨s, r, rfl, hr, hs, plus⟩ := hx.exists_signed
  obtain ⟨t, q, rfl, hq, ht, plus'⟩ := hy.exists_signed
  change HasRank (Binary64.add _ _) _
  simp only [Binary64.add, hr, hq, hs, ht]
  by_cases infinite : a = infiniteRank
  · have alike : ¬ (b = infiniteRank ∧ s ≠ t) := by
      rintro ⟨infinite', opposite⟩
      have first := plus (infinite ▸ infiniteRank_ne_zero)
      have second := plus' (infinite' ▸ infiniteRank_ne_zero)
      exact opposite (first.trans second.symm)
    rw [if_pos infinite, if_neg alike]
    rwa [roundedRank_infinite Nat.one_pos, ← infinite]
    rw [← infinite]
    omega
  · by_cases infinite' : b = infiniteRank
    · rw [if_neg infinite, if_pos infinite']
      rwa [roundedRank_infinite Nat.one_pos, ← infinite']
      rw [← infinite']
      omega
    · rw [if_neg infinite, if_neg infinite', ← Int.natCast_add, Int.natAbs_natCast]
      refine hasRank_round Nat.one_pos fun some => ?_
      rw [if_neg (by omega), decide_eq_false (by omega)]

theorem signedUnits_not (negative : Bool) (rank : Nat) :
    signedUnits (!negative) rank = -signedUnits negative rank := by
  cases negative <;> simp [signedUnits]

theorem natAbs_add_neg {m n : Nat} (ordered : n ≤ m) : ((m : Int) + -n).natAbs = m - n := by omega

theorem HasRank.sub (hx : HasRank x a) (hy : HasRank y b) (ordered : b ≤ a)
    (finite : a < infiniteRank) : HasRank (x - y) (roundedRank (units a - units b) 1) := by
  obtain ⟨s, r, rfl, hr, hs, -⟩ := hx.exists_signed
  obtain ⟨t, q, rfl, hq, ht, -⟩ := hy.exists_signed
  have units_le := units_le_units_iff.mpr ordered
  change HasRank (Binary64.sub _ _) _
  simp only [Binary64.sub, neg, Binary64.add, hr, hq, hs, ht, signedUnits_not]
  rw [if_neg (by omega), if_neg (by omega), natAbs_add_neg units_le]
  refine hasRank_round Nat.one_pos fun some => ?_
  rw [if_neg (by omega), decide_eq_false (by omega)]

theorem HasRank.mul (hx : HasRank x a) (hy : HasRank y b) (finite : a < infiniteRank)
    (finite' : b < infiniteRank) :
    HasRank (x * y) (roundedRank (units a * units b) unitsPerOne) := by
  obtain ⟨s, r, rfl, hr, -, plus⟩ := hx.exists_signed
  obtain ⟨t, q, rfl, hq, -, plus'⟩ := hy.exists_signed
  change HasRank (Binary64.mul _ _) _
  simp only [Binary64.mul, hr, hq]
  rw [if_neg (by omega)]
  refine hasRank_round unitsPerOne_pos fun some => ?_
  obtain ⟨first, second⟩ := Nat.mul_ne_zero_iff.mp some
  rw [plus (units_ne_zero_iff.mp first), plus' (units_ne_zero_iff.mp second)]
  rfl

/-- The rank of a quotient; whatever is divided by infinity is gone. -/
def quotientRank (a b : Nat) : Nat :=
  if b = infiniteRank then 0 else roundedRank (units a * unitsPerOne) (units b)

theorem HasRank.div (hx : HasRank x a) (hy : HasRank y b) (finite : a < infiniteRank)
    (positive : 0 < b) : HasRank (x / y) (quotientRank a b) := by
  obtain ⟨s, r, rfl, hr, -, plus⟩ := hx.exists_signed
  obtain ⟨t, q, rfl, hq, -, plus'⟩ := hy.exists_signed
  have divisor : q ≠ 0 := by rintro rfl; simp at hq; omega
  change HasRank (Binary64.div _ _) _
  simp only [Binary64.div, quotientRank, hr, hq, divisor, if_false]
  rw [if_neg (by omega)]
  split_ifs with infinite
  · cases s <;> cases t <;> rfl
  · refine hasRank_round (units_pos_iff.mpr positive) fun some => ?_
    obtain ⟨dividend, -⟩ := Nat.mul_ne_zero_iff.mp some
    rw [plus (units_ne_zero_iff.mp dividend), plus' (by omega)]
    rfl

section Laws

variable {z : Binary64}

theorem le_iff_place : x ≤ y ↔ ∃ i j, x.place = some i ∧ y.place = some j ∧ i ≤ j := by
  change x.atMost y = true ↔ _
  unfold atMost
  cases x.place with
  | none => simp
  | some i => cases y.place <;> simp

theorem le_trans (first : x ≤ y) (second : y ≤ z) : x ≤ z := by
  obtain ⟨i, j, hi, hj, below⟩ := le_iff_place.mp first
  obtain ⟨j', k, hj', hk, above⟩ := le_iff_place.mp second
  obtain rfl : j = j' := Option.some.inj (hj.symm.trans hj')
  exact le_iff_place.mpr ⟨i, k, hi, hk, Int.le_trans below above⟩

instance : @Trans Binary64 Binary64 Binary64 (· ≤ ·) (· ≤ ·) (· ≤ ·) := ⟨le_trans⟩

theorem lt_iff_place : x < y ↔ ∃ i j, x.place = some i ∧ y.place = some j ∧ i < j := by
  change x.less y = true ↔ _
  unfold less
  cases x.place with
  | none => simp
  | some i => cases y.place <;> simp

theorem le_of_lt (below : x < y) : x ≤ y := by
  obtain ⟨i, j, hi, hj, less⟩ := lt_iff_place.mp below
  exact le_iff_place.mpr ⟨i, j, hi, hj, Int.le_of_lt less⟩

theorem le_of_not_lt (hx : 0 ≤ x) (hy : 0 ≤ y) (h : ¬ x < y) : y ≤ x := by
  obtain ⟨a, ha⟩ := nonneg_iff.mp hx
  obtain ⟨b, hb⟩ := nonneg_iff.mp hy
  rw [ha.lt_iff hb] at h
  exact (hb.le_iff ha).mpr (Nat.le_of_not_lt h)

theorem lt_of_not_le (hx : 0 ≤ x) (hy : 0 ≤ y) (h : ¬ x ≤ y) : y < x := by
  obtain ⟨a, ha⟩ := nonneg_iff.mp hx
  obtain ⟨b, hb⟩ := nonneg_iff.mp hy
  rw [ha.le_iff hb] at h
  exact (hb.lt_iff ha).mpr (Nat.lt_of_not_le h)

theorem not_lt_of_le (h : x ≤ y) : ¬ y < x := by
  obtain ⟨i, j, hi, hj, ordered⟩ := le_iff_place.mp h
  intro below
  obtain ⟨j', i', hj', hi', less⟩ := lt_iff_place.mp below
  obtain rfl : i = i' := Option.some.inj (hi.symm.trans hi')
  obtain rfl : j = j' := Option.some.inj (hj.symm.trans hj')
  exact Int.not_le.mpr less ordered

theorem nonneg_of_isFinite (finite : x.isFinite) (h : ¬ x < 0) : 0 ≤ x := by
  obtain ⟨i, hi⟩ : ∃ i, x.place = some i := by
    cases x with
    | nan => cases finite
    | signed => exact ⟨_, rfl⟩
  have : ¬ i < 0 := fun below => h (lt_iff_place.mpr ⟨i, 0, hi, hasRank_zero, below⟩)
  exact le_iff_place.mpr ⟨0, i, hasRank_zero, hi, by omega⟩

theorem le_refl_of_nonneg (hx : 0 ≤ x) : x ≤ x := by
  obtain ⟨a, ha⟩ := nonneg_iff.mp hx
  exact (ha.le_iff ha).mpr (Nat.le_refl a)

theorem isFinite_of_le (hx : 0 ≤ x) (ordered : x ≤ y) (finite : y.isFinite) : x.isFinite := by
  obtain ⟨a, ha⟩ := nonneg_iff.mp hx
  obtain ⟨b, hb⟩ := nonneg_iff.mp (le_trans hx ordered)
  have below := hb.isFinite_iff.mp finite
  exact ha.isFinite_iff.mpr (Nat.lt_of_le_of_lt ((ha.le_iff hb).mp ordered) below)

theorem add_nonneg (hx : 0 ≤ x) (hy : 0 ≤ y) : 0 ≤ x + y := by
  obtain ⟨a, ha⟩ := nonneg_iff.mp hx
  obtain ⟨b, hb⟩ := nonneg_iff.mp hy
  exact nonneg_iff.mpr ⟨_, ha.add hb⟩

theorem add_le_add (hx : 0 ≤ x) (hy : 0 ≤ y) (left : x ≤ x') (right : y ≤ y') :
    x + y ≤ x' + y' := by
  obtain ⟨a, ha⟩ := nonneg_iff.mp hx
  obtain ⟨b, hb⟩ := nonneg_iff.mp hy
  obtain ⟨c, hc⟩ := nonneg_iff.mp (le_trans hx left)
  obtain ⟨d, hd⟩ := nonneg_iff.mp (le_trans hy right)
  have first := units_le_units_iff.mpr ((ha.le_iff hc).mp left)
  have second := units_le_units_iff.mpr ((hb.le_iff hd).mp right)
  exact ((ha.add hb).le_iff (hc.add hd)).mpr
    (roundedRank_mono Nat.one_pos Nat.one_pos (Nat.mul_le_mul_right 1 (Nat.add_le_add first second)))

theorem le_add_right (hx : 0 ≤ x) (hy : 0 ≤ y) : x ≤ x + y := by
  obtain ⟨a, ha⟩ := nonneg_iff.mp hx
  obtain ⟨b, hb⟩ := nonneg_iff.mp hy
  exact (ha.le_iff (ha.add hb)).mpr (le_roundedRank_of_le Nat.one_pos ha.le (by omega))

theorem le_add_left (hx : 0 ≤ x) (hy : 0 ≤ y) : y ≤ x + y := by
  obtain ⟨a, ha⟩ := nonneg_iff.mp hx
  obtain ⟨b, hb⟩ := nonneg_iff.mp hy
  exact (hb.le_iff (ha.add hb)).mpr (le_roundedRank_of_le Nat.one_pos hb.le (by omega))

theorem sub_nonneg (hy : 0 ≤ y) (ordered : y ≤ x) (finite : x.isFinite) : 0 ≤ x - y := by
  obtain ⟨a, ha⟩ := nonneg_iff.mp (le_trans hy ordered)
  obtain ⟨b, hb⟩ := nonneg_iff.mp hy
  exact nonneg_iff.mpr ⟨_, ha.sub hb ((hb.le_iff ha).mp ordered) (ha.isFinite_iff.mp finite)⟩

theorem sub_le (hy : 0 ≤ y) (ordered : y ≤ x) (finite : x.isFinite) : x - y ≤ x := by
  obtain ⟨a, ha⟩ := nonneg_iff.mp (le_trans hy ordered)
  obtain ⟨b, hb⟩ := nonneg_iff.mp hy
  exact ((ha.sub hb ((hb.le_iff ha).mp ordered) (ha.isFinite_iff.mp finite)).le_iff ha).mpr
    (roundedRank_le_of_le Nat.one_pos ha.le (by omega))

theorem mul_nonneg (hx : 0 ≤ x) (hy : 0 ≤ y) (finite : x.isFinite) (finite' : y.isFinite) :
    0 ≤ x * y := by
  obtain ⟨a, ha⟩ := nonneg_iff.mp hx
  obtain ⟨b, hb⟩ := nonneg_iff.mp hy
  exact nonneg_iff.mpr ⟨_, ha.mul hb (ha.isFinite_iff.mp finite) (hb.isFinite_iff.mp finite')⟩

theorem mul_le_mul (hx : 0 ≤ x) (hy : 0 ≤ y) (left : x ≤ x') (right : y ≤ y')
    (finite : x'.isFinite) (finite' : y'.isFinite) : x * y ≤ x' * y' := by
  obtain ⟨a, ha⟩ := nonneg_iff.mp hx
  obtain ⟨b, hb⟩ := nonneg_iff.mp hy
  obtain ⟨c, hc⟩ := nonneg_iff.mp (le_trans hx left)
  obtain ⟨d, hd⟩ := nonneg_iff.mp (le_trans hy right)
  have first := (ha.le_iff hc).mp left
  have second := (hb.le_iff hd).mp right
  have small := hc.isFinite_iff.mp finite
  have small' := hd.isFinite_iff.mp finite'
  refine ((ha.mul hb (by omega) (by omega)).le_iff (hc.mul hd small small')).mpr ?_
  refine roundedRank_mono unitsPerOne_pos unitsPerOne_pos (Nat.mul_le_mul_right _ ?_)
  exact Nat.mul_le_mul (units_le_units_iff.mpr first) (units_le_units_iff.mpr second)

theorem isFinite_one : (1 : Binary64).isFinite = true := hasRank_one.isFinite_iff.mpr (by decide)

theorem mul_le_of_le_one (hx : 0 ≤ x) (hy : 0 ≤ y) (part : y ≤ 1) (finite : x.isFinite) :
    x * y ≤ x := by
  obtain ⟨a, ha⟩ := nonneg_iff.mp hx
  obtain ⟨b, hb⟩ := nonneg_iff.mp hy
  have small := (hb.isFinite_iff.mp (isFinite_of_le hy part isFinite_one))
  refine ((ha.mul hb (ha.isFinite_iff.mp finite) small).le_iff ha).mpr ?_
  refine roundedRank_le_of_le unitsPerOne_pos ha.le (Nat.mul_le_mul_left _ ?_)
  rw [← units_rankOfOne]
  exact units_le_units_iff.mpr ((hb.le_iff hasRank_one).mp part)

theorem mul_comm (x y : Binary64) : x * y = y * x := by
  cases x with
  | nan => cases y <;> rfl
  | signed s a =>
  cases y with
  | nan => rfl
  | signed t b =>
    change Binary64.mul _ _ = Binary64.mul _ _
    simp only [Binary64.mul, Nat.mul_comm (units b), or_comm, bne_comm (a := t)]

theorem div_nonneg (hx : 0 ≤ x) (finite : x.isFinite) (positive : 0 < y) : 0 ≤ x / y := by
  obtain ⟨a, ha⟩ := nonneg_iff.mp hx
  obtain ⟨b, hb⟩ := nonneg_iff.mp (le_of_lt positive)
  have := (hasRank_zero.lt_iff hb).mp positive
  exact nonneg_iff.mpr ⟨_, ha.div hb (ha.isFinite_iff.mp finite) this⟩

theorem div_le_div_right (hx : 0 ≤ x) (ordered : x ≤ x') (finite : x'.isFinite)
    (positive : 0 < y) : x / y ≤ x' / y := by
  obtain ⟨a, ha⟩ := nonneg_iff.mp hx
  obtain ⟨b, hb⟩ := nonneg_iff.mp (le_of_lt positive)
  obtain ⟨c, hc⟩ := nonneg_iff.mp (le_trans hx ordered)
  have below := (ha.le_iff hc).mp ordered
  have small := hc.isFinite_iff.mp finite
  have divisor := (hasRank_zero.lt_iff hb).mp positive
  refine ((ha.div hb (by omega) divisor).le_iff (hc.div hb small divisor)).mpr ?_
  unfold quotientRank
  split_ifs
  · exact Nat.le_refl 0
  · have steps := units_pos_iff.mpr divisor
    refine roundedRank_mono steps steps (Nat.mul_le_mul_right _ (Nat.mul_le_mul_right _ ?_))
    exact units_le_units_iff.mpr below

theorem div_le_one (hx : 0 ≤ x) (ordered : x ≤ y) (finite : x.isFinite) (positive : 0 < y) :
    x / y ≤ 1 := by
  obtain ⟨a, ha⟩ := nonneg_iff.mp hx
  obtain ⟨b, hb⟩ := nonneg_iff.mp (le_of_lt positive)
  have divisor := (hasRank_zero.lt_iff hb).mp positive
  refine ((ha.div hb (ha.isFinite_iff.mp finite) divisor).le_iff hasRank_one).mpr ?_
  unfold quotientRank
  split_ifs
  · exact Nat.zero_le _
  · refine roundedRank_le_of_le (units_pos_iff.mpr divisor) (by decide) ?_
    rw [units_rankOfOne, Nat.mul_comm]
    exact Nat.mul_le_mul_left _ (units_le_units_iff.mpr ((ha.le_iff hb).mp ordered))

theorem div_le_self (hx : 0 ≤ x) (finite : x.isFinite) (unit : 1 ≤ y) : x / y ≤ x := by
  obtain ⟨a, ha⟩ := nonneg_iff.mp hx
  obtain ⟨b, hb⟩ := nonneg_iff.mp (le_trans (ofNat_nonneg 1) unit)
  have above := units_le_units_iff.mpr ((hasRank_one.le_iff hb).mp unit)
  have positive : 0 < b := Nat.lt_of_lt_of_le (by decide) ((hasRank_one.le_iff hb).mp unit)
  refine ((ha.div hb (ha.isFinite_iff.mp finite) positive).le_iff ha).mpr ?_
  unfold quotientRank
  split_ifs
  · exact Nat.zero_le a
  · rw [units_rankOfOne] at above
    exact roundedRank_le_of_le (units_pos_iff.mpr positive) ha.le (Nat.mul_le_mul_left _ above)

theorem lt_of_one_le (unit : 1 ≤ x) : 0 < x := by
  obtain ⟨i, j, hi, hj, ordered⟩ := le_iff_place.mp unit
  have := Option.some.inj (hi.symm.trans hasRank_one)
  have : 0 < rankOfOne := by decide
  exact lt_iff_place.mpr ⟨0, j, hasRank_zero, hj, by omega⟩

theorem HasRank.nearestNat_eq (h : HasRank x a) (finite : a < infiniteRank) :
    x.nearestNat = (2 * units a + unitsPerOne) / (2 * unitsPerOne) := by
  rcases h.cases with ⟨_, rfl⟩ | ⟨rfl, rfl⟩
  · simp [nearestNat, finite]
  · have : unitsPerOne / (2 * unitsPerOne) = 0 := by
      have := unitsPerOne_pos
      exact Nat.div_eq_of_lt (by omega)
    simp [nearestNat, this]

theorem nearestNat_mono (hx : 0 ≤ x) (ordered : x ≤ y) (finite : y.isFinite) :
    x.nearestNat ≤ y.nearestNat := by
  obtain ⟨a, ha⟩ := nonneg_iff.mp hx
  obtain ⟨b, hb⟩ := nonneg_iff.mp (le_trans hx ordered)
  have below := (ha.le_iff hb).mp ordered
  have small := hb.isFinite_iff.mp finite
  rw [ha.nearestNat_eq (by omega), hb.nearestNat_eq small]
  have := units_le_units_iff.mpr below
  exact Nat.div_le_div_right (by omega)

theorem exists_place_of_isFinite (finite : x.isFinite) :
    ∃ i, x.place = some i ∧ -(infiniteRank : Int) < i ∧ i < infiniteRank := by
  cases x with
  | nan => cases finite
  | signed negative rank =>
    have small : rank.val < infiniteRank := by simpa [isFinite, Fin.lt_def] using finite
    refine ⟨_, rfl, ?_⟩
    cases negative <;> simp <;> omega

theorem le_refl_of_isFinite (finite : x.isFinite) : x ≤ x := by
  obtain ⟨i, hi, _⟩ := exists_place_of_isFinite finite
  exact le_iff_place.mpr ⟨i, i, hi, hi, Int.le_refl i⟩

theorem same_self_of_isFinite (finite : x.isFinite) : x.same x = true := by
  obtain ⟨i, hi, _⟩ := exists_place_of_isFinite finite
  simp only [same, hi, decide_true]

theorem lt_infinity (finite : x.isFinite) : x < infinity false := by
  obtain ⟨i, hi, _, below⟩ := exists_place_of_isFinite finite
  exact lt_iff_place.mpr ⟨i, _, hi, rfl, below⟩

theorem infinity_lt (finite : x.isFinite) : infinity true < x := by
  obtain ⟨i, hi, above, _⟩ := exists_place_of_isFinite finite
  exact lt_iff_place.mpr ⟨_, i, rfl, hi, above⟩

theorem ne_nan_of_isFinite (finite : x.isFinite) : x ≠ .nan := by
  rintro rfl
  cases finite

theorem exists_place (number : x ≠ .nan) : ∃ i, x.place = some i := by
  cases x with
  | nan => exact absurd rfl number
  | signed negative rank => exact ⟨_, rfl⟩

theorem same_iff_place : x.same y = true ↔ ∃ i, x.place = some i ∧ y.place = some i := by
  unfold same
  cases x.place with
  | none => simp
  | some i => cases y.place <;> simp [eq_comm]

theorem same_comm : x.same y = true ↔ y.same x = true := by
  rw [same_iff_place, same_iff_place]
  exact exists_congr fun i => and_comm

theorem le_iff_lt_or_same : x ≤ y ↔ x < y ∨ x.same y = true := by
  rw [le_iff_place, lt_iff_place, same_iff_place]
  constructor
  · rintro ⟨i, j, hi, hj, ordered⟩
    rcases Int.lt_or_eq_of_le ordered with below | rfl
    · exact .inl ⟨i, j, hi, hj, below⟩
    · exact .inr ⟨i, hi, hj⟩
  · rintro (⟨i, j, hi, hj, below⟩ | ⟨i, hi, hj⟩)
    · exact ⟨i, j, hi, hj, Int.le_of_lt below⟩
    · exact ⟨i, i, hi, hj, Int.le_refl i⟩

theorem lt_or_same_or_gt (hx : x ≠ .nan) (hy : y ≠ .nan) :
    x < y ∨ x.same y = true ∨ y < x := by
  obtain ⟨i, hi⟩ := exists_place hx
  obtain ⟨j, hj⟩ := exists_place hy
  rw [lt_iff_place, lt_iff_place, same_iff_place]
  rcases Int.lt_trichotomy i j with below | rfl | above
  · exact .inl ⟨i, j, hi, hj, below⟩
  · exact .inr (.inl ⟨i, hi, hj⟩)
  · exact .inr (.inr ⟨j, i, hj, hi, above⟩)

theorem not_same_of_lt (below : x < y) : ¬ x.same y = true := by
  obtain ⟨i, j, hi, hj, less⟩ := lt_iff_place.mp below
  intro same
  obtain ⟨k, hk, hk'⟩ := same_iff_place.mp same
  obtain rfl : i = k := Option.some.inj (hi.symm.trans hk)
  obtain rfl : j = i := Option.some.inj (hj.symm.trans hk')
  exact Int.lt_irrefl _ less

theorem not_lt_iff_le (hx : x ≠ .nan) (hy : y ≠ .nan) : ¬ x < y ↔ y ≤ x := by
  constructor
  · intro notBelow
    rcases lt_or_same_or_gt hx hy with below | same | above
    · exact absurd below notBelow
    · exact le_iff_lt_or_same.mpr (.inr (same_comm.mp same))
    · exact le_of_lt above
  · exact not_lt_of_le

end Laws

end Binary64

end PageHealth
