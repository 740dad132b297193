import PageHealth.Proofs.Catalog.Accepted
import PageHealth.Proofs.Number.Sum
import PageHealth.Scoring

/-! The points of rules. When the tables are sound, a rule's share of its category's weight lies in
the unit interval, however the sum of the weights was rounded and even if it overflowed; so no rule
is worth more than its category, or earns more than it is worth. -/
namespace PageHealth

open Binary64

theorem Binary64.positivePart_of_nonneg {x : Binary64} {a : Nat} (h : HasRank x a) :
    HasRank (Scalar.positivePart x) a := by
  change HasRank (if Binary64.less 0 x = true then x else 0) a
  split_ifs with positive
  · exact h
  · have := mt (hasRank_zero.lt_iff h).mpr positive
    obtain rfl : a = 0 := by omega
    exact hasRank_zero

theorem Binary64.clampUnit_of_mem {x : Binary64} (nonneg : 0 ≤ x) (part : x ≤ 1) :
    Scalar.clampUnit x = x := by
  obtain ⟨a, ha⟩ := nonneg_iff.mp nonneg
  have low : ¬ x < 0 := mt (ha.lt_iff hasRank_zero).mp (Nat.not_lt_zero a)
  have high : ¬ 1 < x := mt (hasRank_one.lt_iff ha).mp (Nat.not_lt.mpr ((ha.le_iff hasRank_one).mp part))
  change (if 1 < (if x < 0 then 0 else x) then 1 else if x < 0 then 0 else x) = x
  rw [if_neg low, if_neg high]

theorem Scoring.Sound.share_mono {scoring : Scoring Binary64} (sound : scoring.Sound)
    {worse better : Status} (ordered : worse.grade ≤ better.grade) :
    scoring.statusScores.share worse ≤ scoring.statusScores.share better := by
  have refl (status : Status) := le_refl_of_nonneg (sound.share_nonneg status)
  cases worse <;> cases better <;>
    first
    | exact refl _
    | exact sound.warning_le_pass
    | exact sound.fail_le_warning
    | exact Binary64.le_trans sound.fail_le_warning sound.warning_le_pass
    | exact absurd ordered (by decide)

section Rules

variable {scoring : Scoring Binary64} {category : Category Binary64} {rule : Rule Binary64}

theorem Rule.weight_nonneg (sound : scoring.Sound) (rule : Rule Binary64) :
    0 ≤ rule.weight scoring := by
  obtain ⟨a, ha⟩ := nonneg_iff.mp (sound.weight_nonneg rule.severity)
  exact nonneg_iff.mpr ⟨a, positivePart_of_nonneg ha⟩

theorem Rule.weight_isFinite (sound : scoring.Sound) (rule : Rule Binary64) :
    (rule.weight scoring).isFinite := by
  obtain ⟨a, ha⟩ := nonneg_iff.mp (sound.weight_nonneg rule.severity)
  have small := ha.isFinite_iff.mp (sound.weight_finite rule.severity)
  exact (positivePart_of_nonneg ha).isFinite_iff.mpr small

theorem Rule.weight_le_weight (sound : scoring.Sound) (member : rule ∈ category.rules) :
    rule.weight scoring ≤ category.weight scoring := by
  refine mem_le_sum (fun x hx => ?_) (List.mem_map_of_mem member)
  obtain ⟨other, _, rfl⟩ := List.mem_map.mp hx
  exact other.weight_nonneg sound

theorem Category.weights_bounds (sound : scoring.Sound) (category : Category Binary64) :
    ∀ w ∈ category.rules.map fun r => r.weight scoring, 0 ≤ w ∧ w ≤ category.weight scoring := by
  intro w hw
  obtain ⟨rule, member, rfl⟩ := List.mem_map.mp hw
  exact ⟨rule.weight_nonneg sound, Rule.weight_le_weight sound member⟩

def Category.budget (category : Category Binary64) : Binary64 :=
  Binary64.ofNat category.maxPoints.toNat

theorem Category.budget_nonneg (category : Category Binary64) : 0 ≤ category.budget :=
  ofNat_nonneg _

theorem Category.budget_le (category : Category Binary64) : category.budget ≤ stepLimit := by
  have small : category.maxPoints.toNat ≤ 2 ^ 32 := Nat.le_of_lt category.maxPoints.toNat_lt
  exact ofNat_le_ofNat small

theorem Category.budget_isFinite (category : Category Binary64) : category.budget.isFinite :=
  isFinite_of_le category.budget_nonneg category.budget_le isFinite_stepLimit

theorem pointsFor_bounds (category : Category Binary64) {weight total : Binary64}
    (nonneg : 0 ≤ weight) (finite : weight.isFinite) (part : weight ≤ total) :
    0 ≤ pointsFor weight total category.maxPoints ∧
      pointsFor weight total category.maxPoints ≤ category.budget := by
  unfold pointsFor
  split_ifs with positive
  · have nonnegShare := div_nonneg nonneg finite positive
    have share := div_le_one nonneg part finite positive
    refine ⟨mul_nonneg nonnegShare category.budget_nonneg
      (isFinite_of_le nonnegShare share isFinite_one) category.budget_isFinite, ?_⟩
    change _ * category.budget ≤ _
    rw [Binary64.mul_comm]
    exact mul_le_of_le_one category.budget_nonneg nonnegShare share category.budget_isFinite
  · exact ⟨ofNat_nonneg 0, category.budget_nonneg⟩

structure Outcome.Bounded (budget : Binary64) (outcome : Outcome Binary64) : Prop where
  earned_nonneg : 0 ≤ outcome.pointsEarned
  earned_le_max : outcome.pointsEarned ≤ outcome.maxPoints
  max_le_budget : outcome.maxPoints ≤ budget

theorem Category.outcome_maxPoints_bounds (sound : scoring.Sound) (member : rule ∈ category.rules)
    (facts : Facts Binary64) :
    0 ≤ (category.outcome scoring (category.weight scoring) facts rule).maxPoints ∧
      (category.outcome scoring (category.weight scoring) facts rule).maxPoints ≤ category.budget :=
  pointsFor_bounds category (rule.weight_nonneg sound) (rule.weight_isFinite sound)
    (Rule.weight_le_weight sound member)

theorem Category.outcome_pointsEarned (sound : scoring.Sound) (category : Category Binary64)
    (rule : Rule Binary64) (facts : Facts Binary64) :
    (category.outcome scoring (category.weight scoring) facts rule).pointsEarned =
      (category.outcome scoring (category.weight scoring) facts rule).maxPoints *
        scoring.statusScores.share (rule.status facts) :=
  congrArg (_ * ·) (clampUnit_of_mem (sound.share_nonneg _) (sound.share_le_one _))

theorem Category.outcome_bounded (sound : scoring.Sound) (member : rule ∈ category.rules)
    (facts : Facts Binary64) :
    (category.outcome scoring (category.weight scoring) facts rule).Bounded category.budget := by
  obtain ⟨nonneg, most⟩ := category.outcome_maxPoints_bounds sound member facts
  have finite := isFinite_of_le nonneg most category.budget_isFinite
  have nonnegShare := sound.share_nonneg (rule.status facts)
  have share := sound.share_le_one (rule.status facts)
  constructor
  · rw [category.outcome_pointsEarned sound]
    exact mul_nonneg nonneg nonnegShare finite (isFinite_of_le nonnegShare share isFinite_one)
  · rw [category.outcome_pointsEarned sound]
    exact mul_le_of_le_one nonneg nonnegShare share finite
  · exact most

theorem Category.pointsEarned_bounds (sound : scoring.Sound) (category : Category Binary64)
    (facts : Facts Binary64) :
    ∀ x ∈ (category.evaluate scoring facts).outcomes.map Outcome.pointsEarned,
      0 ≤ x ∧ x ≤ category.budget := by
  intro x hx
  obtain ⟨outcome, listed, rfl⟩ := List.mem_map.mp hx
  obtain ⟨rule, member, rfl⟩ := List.mem_map.mp listed
  have earned := category.outcome_bounded sound member facts
  exact ⟨earned.earned_nonneg, Binary64.le_trans earned.earned_le_max earned.max_le_budget⟩

theorem Category.pointsEarned_le (sound : scoring.Sound) (member : rule ∈ category.rules)
    {other : Rule Binary64} {f g : Facts Binary64} (alike : rule.severity = other.severity)
    (better : (rule.status f).grade ≤ (other.status g).grade) :
    (category.outcome scoring (category.weight scoring) f rule).pointsEarned ≤
      (category.outcome scoring (category.weight scoring) g other).pointsEarned := by
  have worth : (category.outcome scoring (category.weight scoring) g other).maxPoints =
      (category.outcome scoring (category.weight scoring) f rule).maxPoints := by
    simp only [Category.outcome, Rule.weight, alike]
  obtain ⟨nonneg, most⟩ := category.outcome_maxPoints_bounds sound member f
  have finite := isFinite_of_le nonneg most category.budget_isFinite
  rw [category.outcome_pointsEarned sound, category.outcome_pointsEarned sound, worth]
  exact mul_le_mul nonneg (sound.share_nonneg _) (le_refl_of_nonneg nonneg) (sound.share_mono better)
    finite (isFinite_of_le (sound.share_nonneg _) (sound.share_le_one _) isFinite_one)

theorem Category.pointsEarned_mono (sound : scoring.Sound) (member : rule ∈ category.rules)
    {f g : Facts Binary64} (better : (rule.status f).grade ≤ (rule.status g).grade) :
    (category.outcome scoring (category.weight scoring) f rule).pointsEarned ≤
      (category.outcome scoring (category.weight scoring) g rule).pointsEarned :=
  category.pointsEarned_le sound member rfl better

theorem Outcome.Bounded.earned_isFinite {outcome : Outcome Binary64}
    (bounded : outcome.Bounded category.budget) : outcome.pointsEarned.isFinite :=
  isFinite_of_le bounded.earned_nonneg
    (Binary64.le_trans bounded.earned_le_max bounded.max_le_budget) category.budget_isFinite

theorem Outcome.Bounded.max_isFinite {outcome : Outcome Binary64}
    (bounded : outcome.Bounded category.budget) : outcome.maxPoints.isFinite :=
  isFinite_of_le (Binary64.le_trans bounded.earned_nonneg bounded.earned_le_max)
    bounded.max_le_budget category.budget_isFinite

end Rules

end PageHealth
