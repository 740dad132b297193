import PageHealth.Proofs.Scoring.Results

namespace PageHealth

def Catalog.entries {α : Type} (catalog : Catalog α) : List (Category α × Rule α) :=
  catalog.categories.flatMap fun category => category.rules.map fun rule => (category, rule)

structure Outcome.IsOf (facts : Facts Binary64) (entry : Category Binary64 × Rule Binary64)
    (outcome : Outcome Binary64) : Prop where
  id : outcome.id = entry.2.id
  category : outcome.category = entry.1.id
  severity : outcome.severity = entry.2.severity
  status : outcome.status = entry.2.status facts

/-- A recommendation that is of a rule with an outcome. What is not above zero, be it no number at
all, is no loss. -/
structure Recommendation.IsOf (entry : Category Binary64 × Rule Binary64) (outcome : Outcome Binary64)
    (recommendation : Recommendation Binary64) : Prop where
  id : recommendation.id = entry.2.id
  category : recommendation.category = entry.1.id
  severity : recommendation.severity = entry.2.severity
  status : recommendation.status = outcome.status
  message : recommendation.message = entry.2.message
  advice : recommendation.recommendation = entry.2.recommendation
  lost : 0 < outcome.maxPoints - outcome.pointsEarned →
    recommendation.pointsLost = outcome.maxPoints - outcome.pointsEarned
  nothing_lost : ¬ 0 < outcome.maxPoints - outcome.pointsEarned → recommendation.pointsLost = 0

structure CategoryScore.IsOf (category : Category Binary64) (score : CategoryScore) : Prop where
  id : score.id = category.id
  label : score.label = category.name
  maxScore : score.maxScore = category.maxPoints.toNat

/-- One outcome a rule and one score a category, in declaration order; the recommendations go with
those rules that did not pass, and the summary counts the outcomes. -/
structure Evaluation.Agrees (catalog : Catalog Binary64) (facts : Facts Binary64)
    (evaluation : Evaluation Binary64) : Prop where
  outcomes : List.Forall₂ (Outcome.IsOf facts) catalog.entries evaluation.outcomes
  recommendations : List.Forall₂ (fun pair => Recommendation.IsOf pair.1 pair.2)
    ((catalog.entries.zip evaluation.outcomes).filter fun pair => pair.1.2.status facts ≠ .pass)
    evaluation.recommendations
  passed : evaluation.summary.passed =
    (evaluation.outcomes.filter fun outcome => outcome.status = .pass).length
  warnings : evaluation.summary.warnings =
    (evaluation.outcomes.filter fun outcome => outcome.status = .warning).length
  failed : evaluation.summary.failed =
    (evaluation.outcomes.filter fun outcome => outcome.status = .fail).length
  total : evaluation.summary.passed + evaluation.summary.warnings + evaluation.summary.failed =
    catalog.ruleCount
  categoryScores : List.Forall₂ CategoryScore.IsOf catalog.categories evaluation.categoryScores

theorem Catalog.length_entries {α : Type} (catalog : Catalog α) :
    catalog.entries.length = catalog.ruleCount := by
  rw [catalog.ruleCount_eq_sum, entries, List.length_flatMap]
  simp only [List.length_map]

section Rules

variable {catalog : Catalog Binary64} {facts : Facts Binary64}
  {entry : Category Binary64 × Rule Binary64} {outcome : Outcome Binary64}

def Catalog.outcomeOf (catalog : Catalog Binary64) (facts : Facts Binary64)
    (entry : Category Binary64 × Rule Binary64) : Outcome Binary64 :=
  entry.1.outcome catalog.scoring (entry.1.weight catalog.scoring) facts entry.2

theorem Catalog.outcomeOf_isOf : (catalog.outcomeOf facts entry).IsOf facts entry :=
  ⟨rfl, rfl, rfl, rfl⟩

theorem Catalog.outcomes_eq_map : (catalog.evaluate facts).outcomes =
    catalog.entries.map (catalog.outcomeOf facts) := by
  rw [Catalog.evaluate_outcomes, entries, List.map_flatMap]
  simp only [List.map_map]
  rfl

theorem Catalog.recommendations_eq_filterMap : (catalog.evaluate facts).recommendations =
    catalog.entries.filterMap fun entry => entry.2.recommend? (catalog.outcomeOf facts entry) := by
  rw [Catalog.evaluate_recommendations, entries, List.filterMap_flatMap]
  simp only [List.filterMap_map]
  rfl

theorem Rule.recommend?_isOf (outcomeOf : outcome.IsOf facts entry)
    (missed : entry.2.status facts ≠ .pass) :
    ∃ recommendation, entry.2.recommend? outcome = some recommendation ∧
      recommendation.IsOf entry outcome := by
  have given : entry.2.recommend? outcome = some _ := if_neg (outcomeOf.status ▸ missed)
  refine ⟨_, given, rfl, outcomeOf.category, rfl, rfl, rfl, rfl, ?_, ?_⟩
  · intro positive
    exact if_pos positive
  · intro notPositive
    exact if_neg notPositive

theorem forall₂_recommendations (entries : List (Category Binary64 × Rule Binary64)) :
    List.Forall₂ (fun pair => Recommendation.IsOf pair.1 pair.2)
      ((entries.zip (entries.map (catalog.outcomeOf facts))).filter
        fun pair => pair.1.2.status facts ≠ .pass)
      (entries.filterMap fun entry => entry.2.recommend? (catalog.outcomeOf facts entry)) := by
  -- A rule that passed adds nothing to either side; any other adds itself and its recommendation.
  induction entries with
  | nil => exact .nil
  | cons entry rest ih =>
    rw [List.map_cons, List.zip_cons_cons, List.filter_cons, List.filterMap_cons]
    by_cases passed : entry.2.status facts = .pass
    · have none : entry.2.recommend? (catalog.outcomeOf facts entry) = none := if_pos passed
      rw [none, if_neg (by simpa using passed)]
      exact ih
    · obtain ⟨recommendation, given, isOf⟩ :=
        Rule.recommend?_isOf (@Catalog.outcomeOf_isOf catalog facts entry) passed
      rw [given, if_pos (by simpa using passed)]
      exact .cons isOf ih

end Rules

section Counts

theorem count_add_count_add_count (statuses : List Status) :
    statuses.count .pass + statuses.count .warning + statuses.count .fail = statuses.length := by
  induction statuses with
  | nil => rfl
  | cons status rest ih =>
    cases status <;> simp <;> omega

theorem count_status {outcomes : List (Outcome Binary64)} {status : Status} :
    (outcomes.map Outcome.status).count status =
      (outcomes.filter fun outcome => outcome.status = status).length := by
  rw [List.count, List.countP_map, List.countP_eq_length_filter]
  rfl

end Counts

theorem Catalog.evaluate_agrees (catalog : Catalog Binary64) (facts : Facts Binary64) :
    (catalog.evaluate facts).Agrees catalog facts := by
  constructor
  · rw [catalog.outcomes_eq_map]
    simp only [List.forall₂_map_right_iff]
    exact List.forall₂_same.mpr fun entry _ => Catalog.outcomeOf_isOf
  · rw [catalog.outcomes_eq_map, catalog.recommendations_eq_filterMap]
    exact forall₂_recommendations catalog.entries
  · exact count_status
  · exact count_status
  · exact count_status
  · calc _ = ((catalog.evaluate facts).outcomes.map Outcome.status).length :=
          count_add_count_add_count _
      _ = catalog.entries.length := by rw [catalog.outcomes_eq_map, List.length_map, List.length_map]
      _ = catalog.ruleCount := catalog.length_entries
  · change List.Forall₂ _ _ (List.map _ (List.map _ _))
    simp only [List.forall₂_map_right_iff]
    exact List.forall₂_same.mpr fun category _ => ⟨rfl, rfl, rfl⟩

end PageHealth
