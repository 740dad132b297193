import PageHealth.Proofs.Scoring.Points
import PageHealth.Proofs.Scoring.Results
import PageHealth.Report.Json

namespace PageHealth

namespace Json

mutual

def Value.withoutNull : Value → Bool
  | .null | .broken _ => false
  | .bool _ | .text _ | .number (.integer _) => true
  | .number (.double x) => x.isFinite
  | .array items _ => itemsWithoutNull items
  | .object members _ => membersWithoutNull members

def Value.itemsWithoutNull : List Value → Bool
  | [] => true
  | item :: rest => item.withoutNull && itemsWithoutNull rest

def Value.membersWithoutNull : List (String × Value) → Bool
  | [] => true
  | (_, value) :: rest => value.withoutNull && membersWithoutNull rest

end

namespace Value

theorem itemsWithoutNull_eq_all (items : List Value) :
    itemsWithoutNull items = items.all withoutNull := by
  induction items with
  | nil => rfl
  | cons item rest ih => simp [itemsWithoutNull, ih]

theorem membersWithoutNull_eq_all (members : List (String × Value)) :
    membersWithoutNull members = members.all fun m => m.2.withoutNull := by
  induction members with
  | nil => rfl
  | cons member rest ih => simp [membersWithoutNull, ih]

end Value

end Json

open Binary64

variable {catalog : Catalog Binary64} {facts : Facts Binary64}

theorem Catalog.Sound.outcome_bounded (sound : catalog.Sound) {outcome : Outcome Binary64}
    (member : outcome ∈ (catalog.evaluate facts).outcomes) :
    ∃ category ∈ catalog.categories, category.id = outcome.category ∧
      outcome.Bounded category.budget := by
  rw [Catalog.evaluate_outcomes] at member
  obtain ⟨category, listed, within⟩ := List.mem_flatMap.mp member
  obtain ⟨rule, inCategory, rfl⟩ := List.mem_map.mp within
  exact ⟨category, listed, rfl, Category.outcome_bounded sound.scoring inCategory facts⟩

theorem Rule.eq_of_recommend?_eq_some {rule : Rule Binary64} {outcome : Outcome Binary64}
    {recommendation : Recommendation Binary64}
    (given : rule.recommend? outcome = some recommendation) :
    recommendation.id = rule.id ∧ recommendation.category = outcome.category ∧
      recommendation.pointsLost =
        Scalar.positivePart (outcome.maxPoints - outcome.pointsEarned) := by
  unfold Rule.recommend? at given
  split_ifs at given
  cases Option.some.inj given
  exact ⟨rfl, rfl, rfl⟩

theorem Outcome.Bounded.lost_bounds {budget : Binary64} {outcome : Outcome Binary64}
    (bounded : outcome.Bounded budget) (finite : outcome.maxPoints.isFinite) :
    0 ≤ Scalar.positivePart (outcome.maxPoints - outcome.pointsEarned) ∧
      Scalar.positivePart (outcome.maxPoints - outcome.pointsEarned) ≤ outcome.maxPoints := by
  have nonneg := Binary64.le_trans bounded.earned_nonneg bounded.earned_le_max
  have least := sub_le bounded.earned_nonneg bounded.earned_le_max finite
  obtain ⟨most, worth⟩ := nonneg_iff.mp nonneg
  obtain ⟨rank, rest⟩ := nonneg_iff.mp (sub_nonneg bounded.earned_nonneg bounded.earned_le_max finite)
  have lost := positivePart_of_nonneg rest
  exact ⟨nonneg_iff.mpr ⟨rank, lost⟩, (lost.le_iff worth).mpr ((rest.le_iff worth).mp least)⟩

theorem Catalog.Sound.recommendation_bounds (sound : catalog.Sound)
    {recommendation : Recommendation Binary64}
    (member : recommendation ∈ (catalog.evaluate facts).recommendations) :
    ∃ outcome ∈ (catalog.evaluate facts).outcomes, outcome.category = recommendation.category ∧
      outcome.id = recommendation.id ∧ outcome.maxPoints.isFinite ∧
      0 ≤ recommendation.pointsLost ∧ recommendation.pointsLost ≤ outcome.maxPoints := by
  rw [Catalog.evaluate_recommendations] at member
  obtain ⟨category, listed, within⟩ := List.mem_flatMap.mp member
  obtain ⟨rule, inCategory, given⟩ := List.mem_filterMap.mp within
  obtain ⟨sameId, sameCategory, lost⟩ := Rule.eq_of_recommend?_eq_some given
  have bounded := Category.outcome_bounded sound.scoring inCategory facts
  refine ⟨category.outcome catalog.scoring (category.weight catalog.scoring) facts rule, ?_,
    sameCategory.symm, sameId.symm, bounded.max_isFinite, ?_⟩
  · rw [Catalog.evaluate_outcomes]
    exact List.mem_flatMap.mpr ⟨category, listed, List.mem_map_of_mem inCategory⟩
  · rw [lost]
    exact bounded.lost_bounds bounded.max_isFinite

theorem Catalog.Sound.isFinite_pointsLost (sound : catalog.Sound)
    {recommendation : Recommendation Binary64}
    (member : recommendation ∈ (catalog.evaluate facts).recommendations) :
    recommendation.pointsLost.isFinite = true := by
  obtain ⟨outcome, _, _, _, finite, nonneg, most⟩ := sound.recommendation_bounds member
  exact isFinite_of_le nonneg most finite

theorem Report.withoutNull_of_isFinite {report : Report}
    (outcomes : ∀ o ∈ report.evaluation.outcomes, o.pointsEarned.isFinite ∧ o.maxPoints.isFinite)
    (recommendations : ∀ r ∈ report.evaluation.recommendations, r.pointsLost.isFinite) :
    report.toValue.withoutNull = true := by
  simp only [Report.toValue, Evaluation.toMembers, Summary.toValue, countValue, Outcome.toValue,
    Recommendation.toValue, CategoryScore.toMember, Json.Value.withoutNull,
    Json.Value.itemsWithoutNull_eq_all, Json.Value.membersWithoutNull_eq_all, List.all_cons,
    List.all_nil, List.all_map, Function.comp_def, Bool.and_true, Bool.true_and, Bool.and_eq_true,
    List.all_eq_true]
  exact ⟨fun _ _ => trivial, recommendations, fun o member => (outcomes o member).symm⟩

/-- The bounds of points in an evaluation. The category of an outcome and the outcome of a
recommendation are those found by their ids. -/
structure Evaluation.PointsBounded (catalog : Catalog Binary64) (evaluation : Evaluation Binary64) :
    Prop where
  outcomes : ∀ outcome ∈ evaluation.outcomes,
    ∃ category, catalog.category? outcome.category = some category ∧
      0 ≤ outcome.pointsEarned ∧ outcome.pointsEarned ≤ outcome.maxPoints ∧
      outcome.maxPoints ≤ Binary64.ofNat category.maxPoints.toNat ∧
      outcome.pointsEarned.isFinite ∧ outcome.maxPoints.isFinite
  recommendations : ∀ recommendation ∈ evaluation.recommendations,
    ∃ outcome, evaluation.outcome? recommendation.category recommendation.id = some outcome ∧
      0 ≤ recommendation.pointsLost ∧ recommendation.pointsLost ≤ outcome.maxPoints ∧
      recommendation.pointsLost.isFinite
  report : ∀ source evaluatedAt,
    (Report.toValue ⟨source, evaluatedAt, evaluation⟩).withoutNull = true

theorem Catalog.evaluate_pointsBounded (catalog : Catalog Binary64)
    (accepted : catalog.problems = []) (facts : Facts Binary64) :
    (catalog.evaluate facts).PointsBounded catalog := by
  have sound := Catalog.sound_of_problems_eq_nil accepted
  have lostFinite : ∀ r ∈ (catalog.evaluate facts).recommendations, r.pointsLost.isFinite :=
    fun r member => sound.isFinite_pointsLost member
  refine ⟨fun outcome member => ?_, fun recommendation member => ?_, fun source evaluatedAt => ?_⟩
  · obtain ⟨category, listed, same, bounded⟩ := sound.outcome_bounded member
    exact ⟨category, same ▸ sound.category?_eq listed, bounded.earned_nonneg, bounded.earned_le_max,
      bounded.max_le_budget, bounded.earned_isFinite, bounded.max_isFinite⟩
  · obtain ⟨outcome, listed, sameCategory, sameId, _, nonneg, most⟩ :=
      sound.recommendation_bounds member
    exact ⟨outcome, sameCategory ▸ sameId ▸ sound.outcome?_eq listed, nonneg, most,
      lostFinite recommendation member⟩
  · refine Report.withoutNull_of_isFinite (fun outcome member => ?_) lostFinite
    obtain ⟨_, _, _, bounded⟩ := sound.outcome_bounded member
    exact ⟨bounded.earned_isFinite, bounded.max_isFinite⟩

theorem Catalog.evaluate_pointsBounded_standard :
    (Catalog.standard : Catalog Binary64).problems = [] ∧
      (Catalog.standard.evaluate Facts.empty).PointsBounded Catalog.standard :=
  ⟨standard_problems, evaluate_pointsBounded _ standard_problems _⟩

end PageHealth
