import PageHealth.Proofs.Catalog.WellFormed

namespace PageHealth

open Binary64

structure Category.Sound (scoring : Scoring Binary64) (category : Category Binary64) : Prop where
  rules_nonempty : category.rules ≠ []
  weight_pos : ¬ Scalar.sum (category.rules.map fun rule =>
    scoring.severityWeights.weight rule.severity) ≤ 0
  ids_nodup : (category.rules.map Rule.id).Nodup
  modes : ∀ rule ∈ category.rules, ∃ place, rule.modeProblems place = []

structure Catalog.Sound (catalog : Catalog Binary64) : Prop where
  scoring : catalog.scoring.Sound
  points_pos : catalog.totalMaxPoints ≠ 0
  ids_nodup : (catalog.categories.map Category.id).Nodup
  category : ∀ category ∈ catalog.categories, category.Sound catalog.scoring

theorem Rule.checks_ne_nil_of_modeProblems_eq_nil {rule : Rule Binary64} {place : RulePlace}
    (accepted : rule.modeProblems place = []) : rule.checks ≠ some [] :=
  (modeProblems_eq_nil_iff.mp accepted).checks_nonempty

theorem Category.WellFormed.sound {scoring : Scoring Binary64} (tables : scoring.Sound)
    {category : Category Binary64} (wellFormed : category.WellFormed scoring) :
    category.Sound scoring where
  rules_nonempty := wellFormed.rules_nonempty
  weight_pos := (weight_pos_iff tables).mpr wellFormed.some_weight
  ids_nodup := wellFormed.ids_nodup
  modes := fun rule member => ⟨⟨0, 0⟩, Rule.modeProblems_eq_nil_iff.mpr (wellFormed.rules rule member)⟩

theorem Catalog.sound_of_problems_eq_nil {catalog : Catalog Binary64}
    (accepted : catalog.problems = []) : catalog.Sound := by
  have wellFormed := problems_eq_nil_iff.mp accepted
  exact
    { scoring := wellFormed.scoring
      points_pos := totalMaxPoints_ne_zero_iff.mpr wellFormed.some_points
      ids_nodup := wellFormed.ids_nodup
      category := fun category member =>
        (wellFormed.categories category member).sound wellFormed.scoring }

end PageHealth
