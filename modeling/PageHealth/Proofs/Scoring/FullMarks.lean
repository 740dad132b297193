import PageHealth.Proofs.Number.Error
import PageHealth.Proofs.Scoring.Monotone

/-! Full marks. A page that passes every rule earns what there is to earn, but for rounding, as long
as the weights of each category add up to a finite number; where they overflow, nothing is earned. -/
namespace PageHealth

open Binary64

theorem underflow_le : 1000 * underflow ≤ roundoff := by
  have large : (2 : ℚ) ^ 63 ≤ unitsPerOne := by
    have : 2 ^ 63 ≤ unitsPerOne := by decide +kernel
    exact_mod_cast this
  have positive := unitsPerOne_cast_pos
  unfold underflow roundoff
  rw [mul_one_div, div_le_div_iff₀ (by positivity) (by positivity)]
  linarith

section Estimates

variable {x y whole e : ℚ}

theorem percent_estimate {part : ℚ} (near : |x - 1| ≤ 1 / 250)
    (quotient : |part - x| ≤ roundoff * x + underflow)
    (product : |y - part * 100| ≤ roundoff * (part * 100) + underflow) : |y - 100| < 1 / 2 := by
  have tiny := underflow_le
  have nonneg := underflow_nonneg
  have small : roundoff ≤ 1 / 100000 := by norm_num [roundoff]
  have positive := roundoff_pos
  rw [abs_le] at *
  have limited : roundoff * x ≤ 1 / 100000 * 2 :=
    mul_le_mul small (by linarith) (by linarith) (by norm_num)
  have limited' : roundoff * (part * 100) ≤ 1 / 100000 * 200 :=
    mul_le_mul small (by linarith) (by linarith) (by norm_num)
  rw [abs_lt]
  constructor <;> linarith

theorem share_estimate {ratio share points : ℚ} (hratio : 0 ≤ ratio) (hpoints : 0 ≤ points)
    (quotient : |share - ratio| ≤ roundoff * ratio + underflow)
    (product : |x - share * points| ≤ roundoff * (share * points) + underflow) :
    |x - points * ratio| ≤ 3 * roundoff * (points * ratio) + (2 * points + 1) * underflow := by
  have positive := roundoff_pos.le
  have small : roundoff ≤ 1 := by norm_num [roundoff]
  have exact := mul_nonneg hpoints hratio
  have unit := mul_nonneg hpoints underflow_nonneg
  have scaled : |share * points - points * ratio| ≤ roundoff * (points * ratio) + points * underflow := by
    have apart : share * points - points * ratio = points * (share - ratio) := by ring
    rw [apart, abs_mul, abs_of_nonneg hpoints]
    exact (mul_le_mul_of_nonneg_left quotient hpoints).trans_eq (by ring)
  generalize share * points = product' at *
  generalize points * ratio = worth at *
  generalize unitsWorth : points * underflow = units at *
  rw [abs_le] at *
  have first : roundoff * (roundoff * worth) ≤ roundoff * worth :=
    mul_le_of_le_one_left (mul_nonneg positive exact) small
  have second : roundoff * units ≤ units := mul_le_of_le_one_left unit small
  have rounded : roundoff * product' ≤ roundoff * (worth + (roundoff * worth + units)) :=
    mul_le_mul_of_nonneg_left (by linarith) positive
  constructor <;> linarith

theorem points_estimate {weight exact : ℚ} (nonneg : 0 ≤ whole) (part : 0 ≤ e) (small : e ≤ 1 / 100)
    (weights : |weight - 1| ≤ e) (shares : |exact - whole * weight| ≤ 3 * e * (whole * weight) + e / 100 * whole)
    (sum : |x - exact| ≤ e * x) : |x - whole| ≤ 6 * e * whole := by
  rw [abs_le] at *
  have error := mul_nonneg part nonneg
  have square : e * (e * whole) ≤ 1 / 100 * (e * whole) := mul_le_mul_of_nonneg_right small error
  have above : whole * weight ≤ whole + e * whole := by nlinarith
  have below : whole - e * whole ≤ whole * weight := by nlinarith
  have drift : e * (whole * weight) ≤ e * whole + e * (e * whole) := by nlinarith
  constructor
  · by_contra low
    nlinarith
  · by_contra high
    nlinarith

/-- With at least one rule and one point, the errors of single rules are parts of the category's. -/
theorem rules_estimate {count points ratio : ℚ} (hcount : 1 ≤ count) (hpoints : 1 ≤ points)
    (hratio : 0 ≤ ratio) :
    3 * roundoff * (points * ratio) + count * ((2 * points + 1) * underflow) ≤
      3 * (count * roundoff) * (points * ratio) + count * roundoff / 100 * points := by
  have nonneg := underflow_nonneg
  have worth : 0 ≤ roundoff * (points * ratio) := by
    have := roundoff_pos
    positivity
  have first := mul_le_mul_of_nonneg_right hcount worth
  have second : count * ((2 * points + 1) * underflow) ≤ count * (3 * points * underflow) := by
    gcongr
    linarith
  have third := mul_le_mul_of_nonneg_left underflow_le (show 0 ≤ count * points by positivity)
  have tiny : 0 ≤ count * points * underflow := by positivity
  linarith

theorem total_estimate {points budgets total : ℚ} (hx : 0 ≤ x) (nonneg : 0 ≤ total)
    (small : e ≤ 1 / 3200) (near : |points - budgets| ≤ 6 * e * budgets)
    (sum : |x - points| ≤ e * x) (sum' : |total - budgets| ≤ e * total) :
    |x - total| ≤ 1 / 250 * total := by
  rw [abs_le] at *
  have first := mul_le_mul_of_nonneg_right small hx
  have second := mul_le_mul_of_nonneg_right small nonneg
  have third : e * budgets ≤ 1 / 3200 * budgets := by
    refine mul_le_mul_of_nonneg_right small ?_
    linarith
  constructor <;> linarith

end Estimates

section Categories

variable {scoring : Scoring Binary64} {category : Category Binary64} {facts : Facts Binary64}

theorem Category.value_budget (category : Category Binary64) :
    category.budget.value = category.maxPoints.toNat :=
  value_ofNat (Nat.lt_of_lt_of_le category.maxPoints.toNat_lt (by decide))

/-- What a rule is worth is its exact share of the points, but for the rounding of one quotient and
one product. -/
theorem abs_value_pointsFor_sub_le (category : Category Binary64) {weight total : Binary64}
    (nonneg : 0 ≤ weight) (part : weight ≤ total) (positive : 0 < total) (finite : total.isFinite) :
    |(pointsFor weight total category.maxPoints).value -
        category.maxPoints.toNat * (weight.value / total.value)| ≤
      3 * roundoff * (category.maxPoints.toNat * (weight.value / total.value)) +
        (2 * category.maxPoints.toNat + 1) * underflow := by
  have finiteWeight := isFinite_of_le nonneg part finite
  have share := div_nonneg nonneg finiteWeight positive
  have finiteShare := isFinite_of_le share (div_le_one nonneg part finiteWeight positive) isFinite_one
  obtain ⟨worth, most⟩ := pointsFor_bounds category nonneg finiteWeight part
  have finiteWorth := isFinite_of_le worth most category.budget_isFinite
  have expanded : pointsFor weight total category.maxPoints = weight / total * category.budget :=
    if_pos positive
  rw [expanded] at finiteWorth ⊢
  rw [← category.value_budget]
  exact share_estimate (Rat.div_nonneg (value_nonneg nonneg) (value_nonneg (le_of_lt positive)))
    (value_nonneg category.budget_nonneg)
    (abs_value_div_sub_le nonneg positive finiteWeight finite finiteShare)
    (abs_value_mul_sub_le share category.budget_nonneg finiteShare category.budget_isFinite finiteWorth)

theorem abs_sum_pointsFor_sub_le (category : Category Binary64) {total : Binary64}
    {weights : List Binary64} (nonneg : ∀ w ∈ weights, 0 ≤ w ∧ w ≤ total) (positive : 0 < total)
    (finite : total.isFinite) :
    |(weights.map fun w => (pointsFor w total category.maxPoints).value).sum -
        category.maxPoints.toNat * ((weights.map value).sum / total.value)| ≤
      3 * roundoff * (category.maxPoints.toNat * ((weights.map value).sum / total.value)) +
        weights.length * ((2 * category.maxPoints.toNat + 1) * underflow) := by
  induction weights with
  | nil => simp
  | cons weight rest ih =>
    have others := ih fun w hw => nonneg w (List.mem_cons_of_mem _ hw)
    obtain ⟨first, part⟩ := nonneg weight List.mem_cons_self
    have own := abs_value_pointsFor_sub_le category first part positive finite
    simp only [List.map_cons, List.sum_cons, List.length_cons, Nat.cast_add, Nat.cast_one, add_div,
      mul_add] at *
    rw [abs_le] at *
    constructor <;> linarith [own.1, own.2, others.1, others.2]

theorem Binary64.HasRank.mul_one {x : Binary64} {rank : Nat} (h : HasRank x rank)
    (finite : x.isFinite) : HasRank (x * 1) rank := by
  have product := h.mul hasRank_one (h.isFinite_iff.mp finite) (hasRank_one.isFinite_iff.mp isFinite_one)
  rwa [units_rankOfOne, roundedRank_units_mul unitsPerOne_pos h.le] at product

/-- A rule that passes earns what it is worth, when passing counts in full. -/
theorem Category.value_pointsEarned (sound : scoring.Sound) (full : scoring.statusScores.pass = 1)
    {rule : Rule Binary64} (member : rule ∈ category.rules) (passed : rule.status facts = .pass) :
    (category.outcome scoring (category.weight scoring) facts rule).pointsEarned.value =
      (pointsFor (rule.weight scoring) (category.weight scoring) category.maxPoints).value := by
  have bounded := category.outcome_bounded sound member facts
  obtain ⟨rank, ranked⟩ := nonneg_iff.mp (Binary64.le_trans bounded.earned_nonneg bounded.earned_le_max)
  have earned := ranked.mul_one bounded.max_isFinite
  rw [category.outcome_pointsEarned sound, passed]
  change (_ * scoring.statusScores.pass).value = _
  rw [full, earned.value_eq]
  exact ranked.value_eq.symm

theorem Category.sum_weights_le (sound : scoring.Sound) (category : Category Binary64) :
    Scalar.sum (category.rules.map fun r => scoring.severityWeights.weight r.severity) ≤
      category.weight scoring := by
  apply sum_le_sum
  · intro w hw
    obtain ⟨rule, _, rfl⟩ := List.mem_map.mp hw
    exact sound.weight_nonneg rule.severity
  · simp only [List.forall₂_map_left_iff, List.forall₂_map_right_iff]
    refine List.forall₂_same.mpr fun rule _ => ?_
    obtain ⟨rank, ranked⟩ := nonneg_iff.mp (sound.weight_nonneg rule.severity)
    exact (ranked.le_iff (positivePart_of_nonneg ranked)).mpr (Nat.le_refl rank)

theorem Category.Sound.weight_positive (sound : scoring.Sound) (weighty : category.Sound scoring) :
    0 < category.weight scoring := by
  have nonneg := fun w hw => (category.weights_bounds sound w hw).1
  apply lt_of_not_le (sum_nonneg nonneg) (ofNat_nonneg 0)
  intro none
  exact weighty.weight_pos (Binary64.le_trans (category.sum_weights_le sound) none)

theorem Category.abs_sum_weights_sub_le (sound : scoring.Sound)
    (positive : 0 < category.weight scoring) (finite : (category.weight scoring).isFinite) :
    |((category.rules.map fun r => r.weight scoring).map value).sum /
        (category.weight scoring).value - 1| ≤ category.rules.length * roundoff := by
  have nonneg := fun w hw => (category.weights_bounds sound w hw).1
  have total := value_pos positive
  have error := abs_value_sum_sub_le nonneg finite
  change |(category.weight scoring).value - _| ≤ _ * (category.weight scoring).value at error
  rw [abs_sub_comm, List.length_map] at error
  rw [div_sub_one total.ne', abs_div, abs_of_pos total, div_le_iff₀ total]
  exact error

theorem Category.abs_value_points_sub_le (sound : scoring.Sound) (present : category.maxPoints ≠ 0)
    (weighty : category.Sound scoring) (finite : (category.weight scoring).isFinite)
    (full : scoring.statusScores.pass = 1)
    (passed : ∀ rule ∈ category.rules, rule.status facts = .pass)
    (small : category.rules.length * roundoff ≤ 1 / 100) :
    |(category.evaluate scoring facts).points.value - category.maxPoints.toNat| ≤
      6 * (category.rules.length * roundoff) * category.maxPoints.toNat := by
  have positive := weighty.weight_positive sound
  have earnedNonneg := fun x hx => (category.pointsEarned_bounds sound facts x hx).1
  obtain ⟨nonneg, limited⟩ := category.points_bounds sound facts
  have sum := abs_value_sum_sub_le earnedNonneg (isFinite_of_le nonneg limited isFinite_sumLimit)
  change |(category.evaluate scoring facts).points.value - _| ≤
    _ * (category.evaluate scoring facts).points.value at sum
  have earned : ((category.evaluate scoring facts).outcomes.map Outcome.pointsEarned).map value =
      (category.rules.map fun r => r.weight scoring).map fun w =>
        (pointsFor w (category.weight scoring) category.maxPoints).value := by
    rw [category.evaluate_outcomes]
    simp only [List.map_map]
    exact List.map_congr_left fun rule member =>
      category.value_pointsEarned sound full member (passed rule member)
  have length : ((category.evaluate scoring facts).outcomes.map Outcome.pointsEarned).length =
      category.rules.length := by
    rw [category.evaluate_outcomes, List.length_map, List.length_map]
  rw [earned, length] at sum
  have shares := abs_sum_pointsFor_sub_le category (category.weights_bounds sound) positive finite
  rw [List.length_map] at shares
  have count : (1 : ℚ) ≤ category.rules.length := by
    exact_mod_cast List.length_pos_of_ne_nil weighty.rules_nonempty
  have points : (1 : ℚ) ≤ category.maxPoints.toNat := by
    have : category.maxPoints.toNat ≠ 0 := fun none => present (UInt32.toNat_inj.mp none)
    exact_mod_cast Nat.one_le_iff_ne_zero.mpr this
  have weights := category.abs_sum_weights_sub_le sound positive finite
  refine points_estimate (by positivity) (mul_nonneg (by positivity) roundoff_pos.le) small weights
    (shares.trans (rules_estimate count points ?_)) sum
  refine div_nonneg (List.sum_nonneg fun w hw => ?_) (value_pos positive).le
  obtain ⟨weight, listed, rfl⟩ := List.mem_map.mp hw
  exact value_nonneg (category.weights_bounds sound weight listed).1

theorem pointsFor_le_zero {weight total : Binary64} {maxPoints : UInt32} (nonneg : 0 ≤ weight)
    (finite : weight.isFinite) (total_nonneg : 0 ≤ total) (infinite : ¬ total.isFinite) :
    pointsFor weight total maxPoints ≤ 0 := by
  obtain ⟨a, ha⟩ := nonneg_iff.mp nonneg
  obtain ⟨b, hb⟩ := nonneg_iff.mp total_nonneg
  have last : b = infiniteRank := by
    have := mt hb.isFinite_iff.mpr infinite
    have := hb.le
    omega
  have share := ha.div hb (ha.isFinite_iff.mp finite) (last ▸ Nat.pos_of_ne_zero infiniteRank_ne_zero)
  rw [quotientRank, if_pos last] at share
  have budget := Category.budget_isFinite ⟨"", "", maxPoints, []⟩
  obtain ⟨c, hc⟩ := nonneg_iff.mp (ofNat_nonneg maxPoints.toNat)
  have worth := share.mul hc (by decide) (hc.isFinite_iff.mp budget)
  rw [units_zero, Nat.zero_mul, roundedRank_zero unitsPerOne_pos] at worth
  unfold pointsFor
  split_ifs
  · exact (HasRank.le_iff worth hasRank_zero).mpr (Nat.le_refl 0)
  · exact (HasRank.le_iff hasRank_zero hasRank_zero).mpr (Nat.le_refl 0)

theorem Category.points_le_zero (sound : scoring.Sound) (category : Category Binary64)
    (facts : Facts Binary64)
    (nothing : category.maxPoints = 0 ∨ ¬ (category.weight scoring).isFinite) :
    (category.evaluate scoring facts).points ≤ 0 := by
  refine sum_le_of_absorbs (ofNat_nonneg 0) zero_absorbs fun x hx =>
    ⟨(category.pointsEarned_bounds sound facts x hx).1, ?_⟩
  rcases nothing with none | infinite
  · have most := (category.pointsEarned_bounds sound facts x hx).2
    rwa [Category.budget, none] at most
  · obtain ⟨outcome, listed, rfl⟩ := List.mem_map.mp hx
    obtain ⟨rule, member, rfl⟩ := List.mem_map.mp listed
    have total := sum_nonneg fun w hw => (category.weights_bounds sound w hw).1
    exact Binary64.le_trans (category.outcome_bounded sound member facts).earned_le_max
      (pointsFor_le_zero (rule.weight_nonneg sound) (rule.weight_isFinite sound) total infinite)

theorem Binary64.value_eq_zero {x : Binary64} (hx : 0 ≤ x) (none : x ≤ 0) : x.value = 0 := by
  have := value_le_value hx none
  have := value_nonneg hx
  rw [value_zero] at *
  linarith

theorem wholePoints_eq {x : Binary64} {n : Nat} (hx : 0 ≤ x) (finite : x.isFinite)
    (near : |x.value - n| < 1 / 2) (fits : n < 2 ^ 32) : wholePoints x = n := by
  unfold wholePoints
  change min x.nearestNat _ = n
  rw [nearestNat_eq_of_value hx finite near]
  omega

theorem percentage_eq {x whole : Binary64} (hx : 0 ≤ x) (limited : x ≤ totalLimit) (unit : 1 ≤ whole)
    (finite : whole.isFinite) (near : |x.value - whole.value| ≤ 1 / 250 * whole.value) :
    percentage x whole = 100 := by
  have finiteX := isFinite_of_le hx limited isFinite_totalLimit
  have exact : (ofNat 100).value = 100 := value_ofNat (by decide)
  obtain ⟨part, finitePart, product, finiteProduct⟩ := percent_bounds hx limited unit
  have quotient := abs_value_div_sub_le hx (lt_of_one_le unit) finiteX finite finitePart
  have scaled := abs_value_mul_sub_le part (ofNat_nonneg 100) finitePart isFinite_hundred finiteProduct
  rw [exact] at scaled
  refine wholePoints_eq product finiteProduct (percent_estimate ?_ quotient scaled) (by decide)
  have positive := value_pos (lt_of_one_le unit)
  rw [div_sub_one positive.ne', abs_div, abs_of_pos positive, div_le_iff₀ positive]
  exact near

end Categories

/-- Everything was earned: the score is 100, nothing is recommended, and each category with points
has all of them. -/
structure Evaluation.FullMarks (evaluation : Evaluation Binary64) : Prop where
  healthScore : evaluation.healthScore = 100
  recommendations : evaluation.recommendations = []
  categoryScores : ∀ score ∈ evaluation.categoryScores, score.maxScore ≠ 0 →
    score.percentage = 100 ∧ score.score = score.maxScore

/-- So few rules and points that rounding errors do not add up to half a point, or half a percent. -/
def Catalog.Modest (catalog : Catalog Binary64) : Prop :=
  catalog.ruleCount * max catalog.totalMaxPoints 100 ≤ 2 ^ 48

theorem abs_sum_map_sub_le {β : Type} {xs : List β} {f g : β → ℚ} {part : ℚ}
    (near : ∀ x ∈ xs, |f x - g x| ≤ part * g x) :
    |(xs.map f).sum - (xs.map g).sum| ≤ part * (xs.map g).sum := by
  induction xs with
  | nil => simp
  | cons x rest ih =>
    have first := near x List.mem_cons_self
    have others := ih fun y hy => near y (List.mem_cons_of_mem _ hy)
    simp only [List.map_cons, List.sum_cons]
    rw [abs_le] at *
    constructor <;> linarith [first.1, first.2, others.1, others.2]

section Catalogs

variable {catalog : Catalog Binary64} {facts : Facts Binary64} {category : Category Binary64}

def Catalog.drift (catalog : Catalog Binary64) : ℚ := catalog.ruleCount * roundoff

theorem Catalog.Modest.drift_le (modest : catalog.Modest) : catalog.drift ≤ 1 / 3200 := by
  have count : catalog.ruleCount * 100 ≤ 2 ^ 48 :=
    Nat.le_trans (Nat.mul_le_mul_left _ (Nat.le_max_right _ _)) modest
  have count : (catalog.ruleCount : ℚ) * 100 ≤ 2 ^ 48 := by exact_mod_cast count
  unfold drift roundoff
  linarith

theorem Catalog.maxPoints_le (member : category ∈ catalog.categories) :
    category.maxPoints.toNat ≤ catalog.totalMaxPoints := by
  rw [catalog.totalMaxPoints_eq_sum]
  exact List.le_sum_of_mem (List.mem_map_of_mem member)

theorem Catalog.rules_length_le (member : category ∈ catalog.categories) :
    category.rules.length ≤ catalog.ruleCount := by
  rw [catalog.ruleCount_eq_sum]
  exact List.le_sum_of_mem (List.mem_map_of_mem member)

theorem Catalog.Sound.categories_length_le (sound : catalog.Sound) :
    catalog.categories.length ≤ catalog.ruleCount := by
  rw [catalog.ruleCount_eq_sum, ← List.length_map (fun c : Category Binary64 => c.rules.length)]
  refine List.length_le_sum_of_one_le _ fun n hn => ?_
  obtain ⟨category, member, rfl⟩ := List.mem_map.mp hn
  exact List.length_pos_of_ne_nil (sound.category category member).rules_nonempty

theorem Catalog.Modest.drift_mul_le (modest : catalog.Modest) (member : category ∈ catalog.categories) :
    catalog.drift * category.maxPoints.toNat ≤ 1 / 32 := by
  have points : category.maxPoints.toNat ≤ max catalog.totalMaxPoints 100 :=
    Nat.le_trans (Catalog.maxPoints_le member) (Nat.le_max_left _ _)
  have count := Nat.le_trans (Nat.mul_le_mul_left catalog.ruleCount points) modest
  have count : (catalog.ruleCount : ℚ) * category.maxPoints.toNat ≤ 2 ^ 48 := by exact_mod_cast count
  unfold drift roundoff
  linarith

def Catalog.Weighable (catalog : Catalog Binary64) : Prop :=
  ∀ category ∈ catalog.categories, category.maxPoints ≠ 0 →
    (category.weight catalog.scoring).isFinite

theorem Catalog.Sound.abs_value_points_sub_le (sound : catalog.Sound) (modest : catalog.Modest)
    (weighable : catalog.Weighable) (full : catalog.scoring.statusScores.pass = 1)
    (member : category ∈ catalog.categories)
    (passed : ∀ rule ∈ category.rules, rule.status facts = .pass) :
    |(category.evaluate catalog.scoring facts).points.value - category.maxPoints.toNat| ≤
      6 * catalog.drift * category.maxPoints.toNat := by
  by_cases present : category.maxPoints = 0
  · obtain ⟨nonneg, _⟩ := category.points_bounds sound.scoring facts
    have none := category.points_le_zero sound.scoring facts (.inl present)
    simp [value_eq_zero nonneg none, present]
  · have part : category.rules.length * roundoff ≤ catalog.drift := by
      have := Catalog.rules_length_le member
      unfold drift
      gcongr
      exact roundoff_pos.le
    refine (category.abs_value_points_sub_le sound.scoring present (sound.category category member)
      (weighable category member present) full passed (part.trans ?_)).trans ?_
    · exact modest.drift_le.trans (by norm_num)
    · gcongr

theorem Catalog.Sound.healthScore_eq_hundred (sound : catalog.Sound) (modest : catalog.Modest)
    (weighable : catalog.Weighable) (full : catalog.scoring.statusScores.pass = 1)
    (passed : ∀ category ∈ catalog.categories, ∀ rule ∈ category.rules, rule.status facts = .pass) :
    (catalog.evaluate facts).healthScore = 100 := by
  have bounded := catalog.points_bounds sound.scoring facts
  have budgets : ∀ x ∈ catalog.categories.map Category.budget, 0 ≤ x ∧ x ≤ stepLimit := by
    intro x hx
    obtain ⟨category, _, rfl⟩ := List.mem_map.mp hx
    exact ⟨category.budget_nonneg, category.budget_le⟩
  have nonneg := sum_nonneg fun x hx => (bounded x hx).1
  have limited := sum_le_of_absorbs (ofNat_nonneg _) totalLimit_absorbs bounded
  have nonneg' := sum_nonneg fun x hx => (budgets x hx).1
  have limited' := sum_le_of_absorbs (ofNat_nonneg _) sumLimit_absorbs budgets
  have finite := isFinite_of_le nonneg' limited' isFinite_sumLimit
  have sum := abs_value_sum_sub_le (fun x hx => (bounded x hx).1)
    (isFinite_of_le nonneg limited isFinite_totalLimit)
  have sum' := abs_value_sum_sub_le (fun x hx => (budgets x hx).1) finite
  have near := abs_sum_map_sub_le fun category member =>
    sound.abs_value_points_sub_le modest weighable full member (passed category member)
  simp only [List.map_map, Function.comp_def, List.length_map, Category.value_budget] at sum sum'
  have count : catalog.categories.length * roundoff ≤ catalog.drift :=
    mul_le_mul_of_nonneg_right (Nat.cast_le.mpr sound.categories_length_le) roundoff_pos.le
  have most := total_estimate (value_nonneg nonneg) (value_nonneg nonneg') modest.drift_le near
    (sum.trans (mul_le_mul_of_nonneg_right count (value_nonneg nonneg)))
    (sum'.trans (mul_le_mul_of_nonneg_right count (value_nonneg nonneg')))
  rw [sound.healthScore_eq, percentage_eq nonneg limited sound.one_le_total finite most]
  rfl

theorem Catalog.recommendations_eq_nil
    (passed : ∀ category ∈ catalog.categories, ∀ rule ∈ category.rules, rule.status facts = .pass) :
    (catalog.evaluate facts).recommendations = [] := by
  rw [Catalog.evaluate_recommendations, List.flatMap_eq_nil_iff]
  intro category member
  refine List.filterMap_eq_nil_iff.mpr fun rule listed => ?_
  exact if_pos (passed category member rule listed)

theorem Catalog.Sound.score_eq (sound : catalog.Sound) (modest : catalog.Modest)
    (weighable : catalog.Weighable) (full : catalog.scoring.statusScores.pass = 1)
    (member : category ∈ catalog.categories) (present : category.maxPoints ≠ 0)
    (passed : ∀ rule ∈ category.rules, rule.status facts = .pass) :
    (category.evaluate catalog.scoring facts).score.percentage = 100 ∧
      (category.evaluate catalog.scoring facts).score.score = category.maxPoints.toNat := by
  obtain ⟨nonneg, limited⟩ := category.points_bounds sound.scoring facts
  have finite := isFinite_of_le nonneg limited isFinite_sumLimit
  have near := sound.abs_value_points_sub_le modest weighable full member passed
  have few := modest.drift_mul_le member
  constructor
  · rw [Category.evaluate_percentage present]
    change percentage _ category.budget = 100
    refine percentage_eq nonneg (Binary64.le_trans limited sumLimit_le_totalLimit)
      (category.one_le_budget present) category.budget_isFinite ?_
    rw [category.value_budget]
    refine near.trans (mul_le_mul_of_nonneg_right ?_ (Nat.cast_nonneg _))
    linarith [modest.drift_le]
  · exact wholePoints_eq nonneg finite (near.trans_lt (by linarith)) category.maxPoints.toNat_lt

theorem Catalog.evaluate_fullMarks_iff (catalog : Catalog Binary64)
    (accepted : catalog.problems = []) (full : catalog.scoring.statusScores.pass = 1)
    (modest : catalog.Modest) (facts : Facts Binary64)
    (passed : ∀ category ∈ catalog.categories, ∀ rule ∈ category.rules, rule.status facts = .pass) :
    (catalog.evaluate facts).FullMarks ↔ catalog.Weighable := by
  have sound := Catalog.sound_of_problems_eq_nil accepted
  constructor
  · intro marks category member present
    by_contra infinite
    obtain ⟨nonneg, _⟩ := category.points_bounds sound.scoring facts
    have none := category.points_le_zero sound.scoring facts (.inr infinite)
    have zero : wholePoints (category.evaluate catalog.scoring facts).points = 0 := by
      refine wholePoints_eq nonneg (isFinite_of_le nonneg none (by decide +kernel)) ?_ (by decide)
      rw [value_eq_zero nonneg none]
      norm_num
    have all := (marks.categoryScores _ (List.mem_map_of_mem (List.mem_map_of_mem member))
      fun none => present (UInt32.toNat_inj.mp none)).2
    exact present (UInt32.toNat_inj.mp (all.symm.trans zero))
  · intro weighable
    refine ⟨sound.healthScore_eq_hundred modest weighable full passed,
      Catalog.recommendations_eq_nil passed, fun score listed present => ?_⟩
    rw [catalog.evaluate_categoryScores] at listed
    obtain ⟨category, member, rfl⟩ := List.mem_map.mp listed
    refine sound.score_eq modest weighable full member ?_ (passed category member)
    intro none
    exact present (congrArg UInt32.toNat none)

def Catalog.ofWeights (weights : SeverityWeights Binary64) : Catalog Binary64 where
  version := "1"
  engine := "test"
  scoring := ⟨weights, StatusScores.standard⟩
  categories := [⟨"c", "C", 10, Severity.all.map fun severity =>
    ⟨severity.name, severity, "", "", some [⟨"ok", "equals", .bool true⟩], none⟩⟩]

theorem Catalog.evaluate_fullMarks_ofWeights :
    ((ofWeights SeverityWeights.standard).evaluate (Facts.empty.insert "ok" (.bool true))).FullMarks :=
  (evaluate_fullMarks_iff (ofWeights SeverityWeights.standard)
    (List.isEmpty_iff.mp (by decide +kernel)) (by decide +kernel)
    (show _ ≤ _ by decide +kernel) (Facts.empty.insert "ok" (.bool true)) (by decide +kernel)).mpr
    (fun category member _ => by
      obtain rfl := List.mem_singleton.mp member
      decide +kernel)

/-- With weights in the same ratios that overflow when they are added, a page that passes every rule
is scored zero. -/
theorem Catalog.not_fullMarks_of_overflow :
    ∃ (catalog : Catalog Binary64) (facts : Facts Binary64), catalog.problems = [] ∧
      catalog.scoring.statusScores.pass = 1 ∧
      (∀ category ∈ catalog.categories, ∀ rule ∈ category.rules, rule.status facts = .pass) ∧
      (catalog.evaluate facts).healthScore = 0 ∧ ¬ (catalog.evaluate facts).FullMarks := by
  have scored : ((ofWeights ⟨ofNat (15 * 10 ^ 307), ofNat (10 ^ 308), ofNat (5 * 10 ^ 307)⟩).evaluate
      (Facts.empty.insert "ok" (.bool true))).healthScore = 0 := by decide +kernel
  refine ⟨_, _, List.isEmpty_iff.mp ?_, ?_, ?_, scored, fun marks => ?_⟩
  · decide +kernel
  · decide +kernel
  · decide +kernel
  · exact absurd (scored.symm.trans marks.healthScore) (by decide)

end Catalogs

end PageHealth
