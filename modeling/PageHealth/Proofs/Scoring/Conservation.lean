import PageHealth.Proofs.Number.Exact
import PageHealth.Proofs.Scoring.Results

/-! Points are conserved when nothing is rounded: the rules of a category are worth the points of the
category between them, and what they do not earn of it is what the recommendations call lost. So no
score passes its maximum. -/
namespace PageHealth

open Exact

section Accepted

structure Scoring.InRange (scoring : Scoring ℚ) : Prop where
  weight_nonneg : ∀ severity, 0 ≤ scoring.severityWeights.weight severity
  share_nonneg : ∀ status, 0 ≤ scoring.statusScores.share status
  share_le_one : ∀ status, scoring.statusScores.share status ≤ 1

/-- A catalog whose categories can share out their points, in exact numbers. -/
structure Catalog.Shareable (catalog : Catalog ℚ) : Prop where
  scoring : catalog.scoring.InRange
  weight_pos : ∀ category ∈ catalog.categories, 0 < category.weight catalog.scoring
  points_pos : catalog.totalMaxPoints ≠ 0
  ids_nodup : (catalog.categories.map Category.id).Nodup

theorem SeverityWeights.nonneg_of_problems_eq_nil {weights : SeverityWeights ℚ}
    (accepted : weights.problems = []) (severity : Severity) : 0 ≤ weights.weight severity := by
  have listed : severity ∈ Severity.all := by cases severity <;> decide
  have inRange := List.filterMap_eq_nil_iff.mp accepted severity listed
  by_contra negative
  have below : Scalar.less (weights.weight severity) 0 = true :=
    decide_eq_true (not_le.mp negative)
  simp [below] at inRange

theorem StatusScores.mem_unit_of_problems_eq_nil {scores : StatusScores ℚ}
    (accepted : scores.problems = []) (status : Status) :
    0 ≤ scores.share status ∧ scores.share status ≤ 1 := by
  have listed : status ∈ Status.all := by cases status <;> decide
  simp only [problems, List.append_eq_nil_iff, List.filterMap_eq_nil_iff, ite_eq_left_iff,
    reduceCtorEq, imp_false, not_not, Bool.and_eq_true] at accepted
  obtain ⟨⟨_, least⟩, most⟩ := accepted.1.1 status listed
  exact ⟨by simpa using of_decide_eq_true least, by simpa using of_decide_eq_true most⟩

variable {scoring : Scoring ℚ} {category : Category ℚ}

theorem Rule.weight_eq (inRange : scoring.InRange) (rule : Rule ℚ) :
    rule.weight scoring = scoring.severityWeights.weight rule.severity :=
  positivePart_eq (inRange.weight_nonneg rule.severity)

theorem Category.RulesFit.weight_positive (inRange : scoring.InRange)
    (fit : category.RulesFit scoring) : 0 < category.weight scoring := by
  have weights : category.weight scoring = Scalar.sum (category.rules.map fun rule =>
      scoring.severityWeights.weight rule.severity) := by
    simp only [Category.weight, Rule.weight_eq inRange]
  rw [weights]
  have above := fit.weight_pos
  by_contra none
  exact above (decide_eq_true (not_lt.mp none))

theorem Catalog.shareable_of_problems_eq_nil {catalog : Catalog ℚ} (accepted : catalog.problems = []) :
    catalog.Shareable := by
  simp only [problems, List.append_eq_nil_iff, budgetProblems_eq_nil_iff] at accepted
  obtain ⟨⟨⟨⟨_, weights⟩, shares⟩, _, points⟩, categories⟩ := accepted
  obtain ⟨each, _, distinct⟩ := categoryProblems_eq_nil_iff.mp categories
  have inRange : catalog.scoring.InRange :=
    ⟨SeverityWeights.nonneg_of_problems_eq_nil weights,
      fun status => (StatusScores.mem_unit_of_problems_eq_nil shares status).1,
      fun status => (StatusScores.mem_unit_of_problems_eq_nil shares status).2⟩
  exact
    { scoring := inRange
      weight_pos := fun category member => (each category member).2.weight_positive inRange
      points_pos := totalMaxPoints_ne_zero_iff.mpr points
      ids_nodup := distinct }

end Accepted

section Categories

variable {scoring : Scoring ℚ} {category : Category ℚ} {facts : Facts ℚ} {rule : Rule ℚ}

theorem pointsFor_eq {weight total : ℚ} (positive : 0 < total) (maxPoints : UInt32) :
    pointsFor weight total maxPoints = weight * (maxPoints.toNat / total) := by
  have present : Scalar.less (Scalar.ofNat 0) total = true := decide_eq_true positive
  rw [pointsFor, if_pos present]
  change weight / total * (maxPoints.toNat : ℚ) = _
  ring

/-- What a category's rules are worth adds up to the category's points. -/
theorem Category.sum_maxPoints (positive : 0 < category.weight scoring) :
    ((category.evaluate scoring facts).outcomes.map Outcome.maxPoints).sum =
      category.maxPoints.toNat := by
  have worth : (category.evaluate scoring facts).outcomes.map Outcome.maxPoints =
      category.rules.map fun rule =>
        rule.weight scoring * (category.maxPoints.toNat / category.weight scoring) := by
    rw [category.evaluate_outcomes, List.map_map]
    exact List.map_congr_left fun rule _ => pointsFor_eq positive category.maxPoints
  have total : (category.rules.map fun rule => rule.weight scoring).sum = category.weight scoring :=
    (sum_eq _).symm
  rw [worth, List.sum_map_mul_right, total, mul_div_cancel₀ _ positive.ne']

theorem Category.outcome_pointsEarned_eq (inRange : scoring.InRange) (category : Category ℚ)
    (rule : Rule ℚ) (facts : Facts ℚ) :
    (category.outcome scoring (category.weight scoring) facts rule).pointsEarned =
      (category.outcome scoring (category.weight scoring) facts rule).maxPoints *
        scoring.statusScores.share (rule.status facts) :=
  congrArg (_ * ·) (clampUnit_eq (inRange.share_nonneg _) (inRange.share_le_one _))

theorem Category.outcome_earned_bounds (inRange : scoring.InRange)
    (positive : 0 < category.weight scoring) (rule : Rule ℚ) (facts : Facts ℚ) :
    0 ≤ (category.outcome scoring (category.weight scoring) facts rule).pointsEarned ∧
      (category.outcome scoring (category.weight scoring) facts rule).pointsEarned ≤
        (category.outcome scoring (category.weight scoring) facts rule).maxPoints := by
  have worth : 0 ≤ (category.outcome scoring (category.weight scoring) facts rule).maxPoints := by
    change 0 ≤ pointsFor _ _ _
    rw [pointsFor_eq positive, rule.weight_eq inRange]
    have := inRange.weight_nonneg rule.severity
    positivity
  rw [category.outcome_pointsEarned_eq inRange]
  exact ⟨mul_nonneg worth (inRange.share_nonneg _),
    mul_le_of_le_one_right worth (inRange.share_le_one _)⟩

theorem sum_pointsEarned_eq_sub {rules : List (Rule ℚ)} {outcome : Rule ℚ → Outcome ℚ}
    (full : ∀ rule ∈ rules, (outcome rule).status = .pass →
      (outcome rule).pointsEarned = (outcome rule).maxPoints)
    (part : ∀ rule ∈ rules, (outcome rule).pointsEarned ≤ (outcome rule).maxPoints) :
    ((rules.map outcome).map Outcome.pointsEarned).sum =
      ((rules.map outcome).map Outcome.maxPoints).sum -
        ((rules.filterMap fun rule => rule.recommend? (outcome rule)).map
          Recommendation.pointsLost).sum := by
  induction rules with
  | nil => simp
  | cons rule rest ih =>
    have others := ih (fun r member => full r (List.mem_cons_of_mem _ member))
      (fun r member => part r (List.mem_cons_of_mem _ member))
    simp only [List.map_cons, List.sum_cons, List.filterMap_cons, others]
    by_cases passed : (outcome rule).status = .pass
    · have none : rule.recommend? (outcome rule) = none := if_pos passed
      rw [none, full rule List.mem_cons_self passed]
      ring
    · have given : rule.recommend? (outcome rule) = some _ := if_neg passed
      have rest := sub_nonneg.mpr (part rule List.mem_cons_self)
      rw [given]
      simp only [List.map_cons, List.sum_cons, positivePart_eq rest]
      ring

theorem Category.sum_pointsEarned (inRange : scoring.InRange)
    (positive : 0 < category.weight scoring) (full : scoring.statusScores.pass = 1) :
    ((category.evaluate scoring facts).outcomes.map Outcome.pointsEarned).sum =
      category.maxPoints.toNat -
        ((category.evaluate scoring facts).recommendations.map Recommendation.pointsLost).sum := by
  rw [category.evaluate_recommendations, ← category.sum_maxPoints positive]
  refine sum_pointsEarned_eq_sub (fun rule _ passed => ?_) fun rule _ =>
    (category.outcome_earned_bounds inRange positive rule facts).2
  have passed : rule.status facts = .pass := passed
  rw [category.outcome_pointsEarned_eq inRange, passed]
  change _ * scoring.statusScores.pass = _
  rw [full, mul_one]

theorem Category.points_le (inRange : scoring.InRange) (positive : 0 < category.weight scoring) :
    (category.evaluate scoring facts).points ≤ category.maxPoints.toNat := by
  rw [← @sum_maxPoints _ _ facts positive]
  change Scalar.sum _ ≤ _
  rw [sum_eq]
  rw [category.evaluate_outcomes, List.map_map, List.map_map]
  exact List.sum_le_sum fun rule _ => (category.outcome_earned_bounds inRange positive rule facts).2

theorem wholePoints_le {points : ℚ} {n : ℕ} (most : points ≤ n) : wholePoints points ≤ n :=
  Nat.le_trans (Nat.min_le_left _ _) (nearestNat_le most)

theorem percentage_le {part whole : ℚ} (positive : 0 < whole) (most : part ≤ whole) :
    percentage part whole ≤ 100 := by
  refine wholePoints_le ?_
  change part / whole * ((100 : ℕ) : ℚ) ≤ ((100 : ℕ) : ℚ)
  have ratio := (div_le_one positive).mpr most
  push_cast
  linarith

end Categories

/-- Nothing is gained or lost in an evaluation: not within a category, whose outcomes and recommendations
are found by its id, and not on the way to the scores. -/
structure Evaluation.Conserves (catalog : Catalog ℚ) (facts : Facts ℚ) (evaluation : Evaluation ℚ) :
    Prop where
  worth : ∀ category ∈ catalog.categories,
    ((evaluation.outcomes.filter fun o => o.category = category.id).map Outcome.maxPoints).sum =
      category.maxPoints.toNat
  earned : catalog.scoring.statusScores.pass = 1 → ∀ category ∈ catalog.categories,
    ((evaluation.outcomes.filter fun o => o.category = category.id).map Outcome.pointsEarned).sum =
      category.maxPoints.toNat - ((evaluation.recommendations.filter fun r =>
        r.category = category.id).map Recommendation.pointsLost).sum
  categoryScores : ∀ score ∈ evaluation.categoryScores,
    score.score ≤ score.maxScore ∧ score.percentage ≤ 100
  /-- The bound that is put on the overall score is never reached from above. -/
  healthScore : evaluation.healthScore = percentage
    (Scalar.sum (catalog.categories.map fun c => (c.evaluate catalog.scoring facts).points))
    (Scalar.sum (catalog.categories.map fun c => Scalar.ofNat c.maxPoints.toNat))
  healthScore_le : percentage
    (Scalar.sum (catalog.categories.map fun c => (c.evaluate catalog.scoring facts).points))
    (Scalar.sum (catalog.categories.map fun c => Scalar.ofNat c.maxPoints.toNat)) ≤ 100

namespace Catalog

variable {catalog : Catalog ℚ} {facts : Facts ℚ} {category : Category ℚ}

theorem Shareable.outcomes_of (shareable : catalog.Shareable) (member : category ∈ catalog.categories) :
    ((catalog.evaluate facts).outcomes.filter fun o => o.category = category.id) =
      (category.evaluate catalog.scoring facts).outcomes := by
  rw [evaluate_outcomes]
  refine filter_flatMap_of_nodup (fun c o within => ?_) shareable.ids_nodup member
  obtain ⟨rule, _, rfl⟩ := List.mem_map.mp within
  rfl

theorem Shareable.recommendations_of (shareable : catalog.Shareable)
    (member : category ∈ catalog.categories) :
    ((catalog.evaluate facts).recommendations.filter fun r => r.category = category.id) =
      (category.evaluate catalog.scoring facts).recommendations := by
  rw [evaluate_recommendations, category.evaluate_recommendations]
  refine filter_flatMap_of_nodup (fun c r within => ?_) shareable.ids_nodup member
  obtain ⟨rule, _, given⟩ := List.mem_filterMap.mp within
  unfold Rule.recommend? at given
  split_ifs at given
  rw [← Option.some.inj given]
  rfl

theorem Shareable.total_pos (shareable : catalog.Shareable) :
    0 < (catalog.categories.map fun c => (c.maxPoints.toNat : ℚ)).sum := by
  obtain ⟨category, member, present⟩ := totalMaxPoints_ne_zero_iff.mp shareable.points_pos
  have positive : (0 : ℚ) < category.maxPoints.toNat := by
    exact_mod_cast UInt32.lt_iff_toNat_lt.mp present
  refine positive.trans_le (List.single_le_sum (fun x hx => ?_) _ (List.mem_map_of_mem member))
  obtain ⟨other, _, rfl⟩ := List.mem_map.mp hx
  exact Nat.cast_nonneg _

theorem Shareable.percentage_le (shareable : catalog.Shareable) :
    percentage
      (Scalar.sum (catalog.categories.map fun c => (c.evaluate catalog.scoring facts).points))
      (Scalar.sum (catalog.categories.map fun c => Scalar.ofNat c.maxPoints.toNat)) ≤ 100 := by
  rw [sum_eq, sum_eq]
  refine PageHealth.percentage_le shareable.total_pos (List.sum_le_sum fun c member => ?_)
  exact c.points_le shareable.scoring (shareable.weight_pos c member)

theorem Shareable.healthScore_eq (shareable : catalog.Shareable) :
    (catalog.evaluate facts).healthScore = percentage
      (Scalar.sum (catalog.categories.map fun c => (c.evaluate catalog.scoring facts).points))
      (Scalar.sum (catalog.categories.map fun c => Scalar.ofNat c.maxPoints.toNat)) := by
  have positive : Scalar.less (Scalar.ofNat 0) (Scalar.sum (catalog.categories.map fun c =>
      (Scalar.ofNat c.maxPoints.toNat : ℚ))) = true := by
    rw [sum_eq]
    exact decide_eq_true shareable.total_pos
  rw [catalog.evaluate_healthScore, healthScore, if_pos positive]
  exact Nat.min_eq_left shareable.percentage_le

theorem Shareable.score_le (shareable : catalog.Shareable) (member : category ∈ catalog.categories) :
    (category.evaluate catalog.scoring facts).score.score ≤ category.maxPoints.toNat ∧
      (category.evaluate catalog.scoring facts).score.percentage ≤ 100 := by
  have most := @Category.points_le _ category facts shareable.scoring
    (shareable.weight_pos category member)
  refine ⟨wholePoints_le most, ?_⟩
  by_cases none : category.maxPoints = 0
  · rw [Category.evaluate_percentage_zero none]
    exact Nat.zero_le 100
  · have present : (0 : ℚ) < category.maxPoints.toNat := by
      exact_mod_cast Nat.pos_of_ne_zero fun zero => none (UInt32.toNat_inj.mp zero)
    rw [Category.evaluate_percentage none]
    exact PageHealth.percentage_le present most

theorem evaluate_conserves (catalog : Catalog ℚ) (accepted : catalog.problems = [])
    (facts : Facts ℚ) : (catalog.evaluate facts).Conserves catalog facts := by
  have shareable := shareable_of_problems_eq_nil accepted
  constructor
  · intro category member
    rw [shareable.outcomes_of member]
    exact category.sum_maxPoints (shareable.weight_pos category member)
  · intro full category member
    rw [shareable.outcomes_of member, shareable.recommendations_of member]
    exact category.sum_pointsEarned shareable.scoring (shareable.weight_pos category member) full
  · intro score listed
    rw [catalog.evaluate_categoryScores] at listed
    obtain ⟨category, member, rfl⟩ := List.mem_map.mp listed
    exact shareable.score_le member
  · exact shareable.healthScore_eq
  · exact shareable.percentage_le

/-- Ten points for a rule with checks, one with thresholds and one of no weight. -/
def ofThirds : Catalog ℚ where
  version := "1"
  engine := ""
  scoring := ⟨⟨2, 1, 0⟩, StatusScores.standard⟩
  categories := [⟨"title", "Title", 10,
    [⟨"present", .high, "", "", some [⟨"title.text", "equals", .text "Home"⟩], none⟩,
     ⟨"length", .medium, "", "", none, some
       ⟨⟨"title.length", "between", .range 30 65⟩, some ⟨"title.length", "gt", .number 3⟩⟩⟩,
     ⟨"language", .low, "", "", some [⟨"language", "equals", .text "en"⟩], none⟩]⟩]

theorem evaluate_conserves_ofThirds :
    let page : Facts ℚ :=
      (Facts.empty.insert "title.length" (.number 4)).insert "title.text" (.text "Home")
    (ofThirds.evaluate page).Conserves ofThirds page :=
  evaluate_conserves _ (List.isEmpty_iff.mp (by decide +kernel)) _

end Catalog

end PageHealth
