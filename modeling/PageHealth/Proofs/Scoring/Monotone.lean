import Mathlib.Algebra.BigOperators.Group.List.Basic
import PageHealth.Proofs.Scoring.Points
import PageHealth.Proofs.Scoring.Results

/-! Scoring is monotone: when every rule turns out at least as well, nothing is scored lower. Sums of
points never reach infinity, so rounding to whole numbers and percentages keeps their order. -/
namespace PageHealth

open Binary64

theorem wholePoints_mono {x y : Binary64} (hx : 0 ≤ x) (ordered : x ≤ y) (finite : y.isFinite) :
    wholePoints x ≤ wholePoints y :=
  min_le_min_right _ (nearestNat_mono hx ordered finite)

theorem percent_bounds {x whole : Binary64} (hx : 0 ≤ x) (limited : x ≤ totalLimit)
    (unit : 1 ≤ whole) :
    0 ≤ x / whole ∧ (x / whole).isFinite ∧
      0 ≤ x / whole * ofNat 100 ∧ (x / whole * ofNat 100).isFinite := by
  have finite := isFinite_totalLimit
  have nonneg : 0 ≤ ofNat 100 := ofNat_nonneg 100
  have finiteHundred := isFinite_hundred
  have finiteProduct : (totalLimit * ofNat 100).isFinite := by decide +kernel
  generalize ofNat 100 = hundred at *
  have finiteX := isFinite_of_le hx limited finite
  have part := div_nonneg hx finiteX (lt_of_one_le unit)
  have limitedPart := Binary64.le_trans (div_le_self hx finiteX unit) limited
  have finitePart := isFinite_of_le part limitedPart finite
  have product := mul_nonneg part nonneg finitePart finiteHundred
  refine ⟨part, finitePart, product, isFinite_of_le product ?_ finiteProduct⟩
  exact mul_le_mul part nonneg limitedPart (le_refl_of_nonneg nonneg) finite finiteHundred

theorem percentage_mono {x y whole : Binary64} (hx : 0 ≤ x) (ordered : x ≤ y)
    (limited : y ≤ totalLimit) (unit : 1 ≤ whole) : percentage x whole ≤ percentage y whole := by
  have hy := Binary64.le_trans hx ordered
  have finiteY := isFinite_of_le hy limited isFinite_totalLimit
  obtain ⟨part, _, product, _⟩ := percent_bounds hx (Binary64.le_trans ordered limited) unit
  obtain ⟨_, finitePart, _, finiteProduct⟩ := percent_bounds hy limited unit
  refine wholePoints_mono product (mul_le_mul part (ofNat_nonneg 100) ?_ ?_ finitePart ?_) finiteProduct
  · exact div_le_div_right hx ordered finiteY (lt_of_one_le unit)
  · exact le_refl_of_nonneg (ofNat_nonneg 100)
  · exact isFinite_hundred

section Categories

variable {scoring : Scoring Binary64} {category : Category Binary64} {f g : Facts Binary64}

theorem Category.points_bounds (sound : scoring.Sound) (category : Category Binary64)
    (facts : Facts Binary64) :
    0 ≤ (category.evaluate scoring facts).points ∧
      (category.evaluate scoring facts).points ≤ sumLimit := by
  have bounded := category.pointsEarned_bounds sound facts
  exact ⟨sum_nonneg fun x hx => (bounded x hx).1, sum_le_of_absorbs (ofNat_nonneg _) sumLimit_absorbs
    fun x hx => ⟨(bounded x hx).1, Binary64.le_trans (bounded x hx).2 category.budget_le⟩⟩

/-- A category with the budget of another one and rules of the same severities, none of which turns out
better than the other's. -/
structure Category.NoBetter (f g : Facts Binary64) (worse better : Category Binary64) : Prop where
  maxPoints : worse.maxPoints = better.maxPoints
  rules : List.Forall₂
    (fun a b => a.severity = b.severity ∧ (a.status f).grade ≤ (b.status g).grade)
    worse.rules better.rules

theorem Category.NoBetter.weight_eq {worse better : Category Binary64}
    (noBetter : worse.NoBetter f g better) (scoring : Scoring Binary64) :
    worse.weight scoring = better.weight scoring :=
  Category.weight_congr scoring (noBetter.rules.imp fun _ _ alike => alike.1)

theorem Category.NoBetter.points_le {worse better : Category Binary64}
    (noBetter : worse.NoBetter f g better) (sound : scoring.Sound) :
    (worse.evaluate scoring f).points ≤ (better.evaluate scoring g).points := by
  -- What an outcome earns depends on nothing of its category but the budget and the weight.
  have earned (rule : Rule Binary64) :
      (better.outcome scoring (better.weight scoring) g rule).pointsEarned =
        (worse.outcome scoring (worse.weight scoring) g rule).pointsEarned := by
    simp only [Category.outcome, noBetter.maxPoints, noBetter.weight_eq scoring]
  refine sum_le_sum (fun x hx => (worse.pointsEarned_bounds sound f x hx).1) ?_
  simp only [List.forall₂_map_left_iff, List.forall₂_map_right_iff, earned]
  have paired := (List.forall₂_and_left worse.rules better.rules).mpr
    ⟨fun rule member => member, noBetter.rules⟩
  refine paired.imp fun a b => ?_
  rintro ⟨member, alike, ordered⟩
  exact worse.pointsEarned_le sound member alike ordered

theorem Category.noBetter_self
    (better : ∀ rule ∈ category.rules, (rule.status f).grade ≤ (rule.status g).grade) :
    category.NoBetter f g category where
  maxPoints := rfl
  rules := List.forall₂_same.mpr fun rule member => ⟨rfl, better rule member⟩

theorem Category.points_mono (sound : scoring.Sound)
    (better : ∀ rule ∈ category.rules, (rule.status f).grade ≤ (rule.status g).grade) :
    (category.evaluate scoring f).points ≤ (category.evaluate scoring g).points :=
  (Category.noBetter_self better).points_le sound

theorem Category.one_le_budget (present : category.maxPoints ≠ 0) : 1 ≤ category.budget := by
  refine ofNat_le_ofNat (Nat.one_le_iff_ne_zero.mpr fun none => present ?_)
  exact UInt32.toNat_inj.mp none

theorem Category.score_mono (sound : scoring.Sound)
    (better : ∀ rule ∈ category.rules, (rule.status f).grade ≤ (rule.status g).grade) :
    (category.evaluate scoring f).score.score ≤ (category.evaluate scoring g).score.score ∧
      (category.evaluate scoring f).score.percentage ≤
        (category.evaluate scoring g).score.percentage := by
  have ordered := category.points_mono sound better
  obtain ⟨nonneg, _⟩ := category.points_bounds sound f
  obtain ⟨_, limited⟩ := category.points_bounds sound g
  constructor
  · exact wholePoints_mono nonneg ordered
      (isFinite_of_le (Binary64.le_trans nonneg ordered) limited isFinite_sumLimit)
  · by_cases present : category.maxPoints = 0
    · rw [Category.evaluate_percentage_zero present, Category.evaluate_percentage_zero present]
    · rw [Category.evaluate_percentage present, Category.evaluate_percentage present]
      exact percentage_mono nonneg ordered (Binary64.le_trans limited sumLimit_le_totalLimit)
        (category.one_le_budget present)

end Categories

section Catalogs

variable {catalog : Catalog Binary64} {f g : Facts Binary64}

theorem Catalog.Sound.exists_points (sound : catalog.Sound) :
    ∃ category ∈ catalog.categories, category.maxPoints ≠ 0 := by
  obtain ⟨category, listed, positive⟩ := totalMaxPoints_ne_zero_iff.mp sound.points_pos
  exact ⟨category, listed, (UInt32.ne_of_lt positive).symm⟩

theorem Catalog.Sound.one_le_total (sound : catalog.Sound) :
    1 ≤ Scalar.sum (catalog.categories.map Category.budget) := by
  obtain ⟨category, listed, present⟩ := sound.exists_points
  refine Binary64.le_trans (category.one_le_budget present)
    (mem_le_sum (fun x hx => ?_) (List.mem_map_of_mem listed))
  obtain ⟨other, _, rfl⟩ := List.mem_map.mp hx
  exact other.budget_nonneg

theorem Catalog.healthScore_eq_of_pos
    (positive : 0 < Scalar.sum (catalog.categories.map Category.budget)) (facts : Facts Binary64) :
    (catalog.evaluate facts).healthScore =
      min (percentage
        (Scalar.sum (catalog.categories.map fun c => (c.evaluate catalog.scoring facts).points))
        (Scalar.sum (catalog.categories.map Category.budget))) 100 := by
  rw [catalog.evaluate_healthScore]
  exact if_pos positive

theorem Catalog.Sound.healthScore_eq (sound : catalog.Sound) (facts : Facts Binary64) :
    (catalog.evaluate facts).healthScore =
      min (percentage
        (Scalar.sum (catalog.categories.map fun c => (c.evaluate catalog.scoring facts).points))
        (Scalar.sum (catalog.categories.map Category.budget))) 100 :=
  catalog.healthScore_eq_of_pos (lt_of_one_le sound.one_le_total) facts

theorem Catalog.points_bounds (sound : catalog.scoring.Sound) (facts : Facts Binary64) :
    ∀ x ∈ catalog.categories.map fun c => (c.evaluate catalog.scoring facts).points,
      0 ≤ x ∧ x ≤ sumLimit := by
  intro x hx
  obtain ⟨category, _, rfl⟩ := List.mem_map.mp hx
  exact category.points_bounds sound facts

/-- Only the better of the two catalogs has to be sound. -/
theorem Catalog.Sound.healthScore_le {worse better : Catalog Binary64} (sound : better.Sound)
    (sameScoring : worse.scoring = better.scoring)
    (below : List.Forall₂ (Category.NoBetter f g) worse.categories better.categories) :
    (worse.evaluate f).healthScore ≤ (better.evaluate g).healthScore := by
  have budgets : worse.categories.map Category.budget = better.categories.map Category.budget := by
    apply map_eq_map_of_forall₂
    refine below.imp fun a b noBetter => ?_
    unfold Category.budget
    rw [noBetter.maxPoints]
  have unit := sound.one_le_total
  have tables : worse.scoring.Sound := sameScoring ▸ sound.scoring
  have nonneg := fun x hx => (worse.points_bounds tables f x hx).1
  rw [← budgets] at unit
  rw [worse.healthScore_eq_of_pos (lt_of_one_le unit), sound.healthScore_eq, ← budgets]
  refine min_le_min_right _ (percentage_mono (sum_nonneg nonneg) (sum_le_sum nonneg ?_)
    (sum_le_of_absorbs (ofNat_nonneg _) totalLimit_absorbs (better.points_bounds sound.scoring g)) unit)
  simp only [List.forall₂_map_left_iff, List.forall₂_map_right_iff, sameScoring]
  exact below.imp fun a b noBetter => noBetter.points_le sound.scoring

theorem Catalog.Sound.healthScore_mono (sound : catalog.Sound)
    (better : ∀ category ∈ catalog.categories, ∀ rule ∈ category.rules,
      (rule.status f).grade ≤ (rule.status g).grade) :
    (catalog.evaluate f).healthScore ≤ (catalog.evaluate g).healthScore := by
  apply sound.healthScore_le rfl
  exact List.forall₂_same.mpr fun category listed => Category.noBetter_self (better category listed)

/-- One evaluation is nowhere above another of the same catalog: rule by rule in points earned,
category by category in score and percentage, and overall. -/
structure Evaluation.AtMost (worse better : Evaluation Binary64) : Prop where
  outcomes : List.Forall₂
    (fun a b => a.category = b.category ∧ a.id = b.id ∧ a.pointsEarned ≤ b.pointsEarned)
    worse.outcomes better.outcomes
  categoryScores : List.Forall₂
    (fun a b => a.id = b.id ∧ a.score ≤ b.score ∧ a.percentage ≤ b.percentage)
    worse.categoryScores better.categoryScores
  healthScore : worse.healthScore ≤ better.healthScore

theorem Catalog.evaluate_mono (catalog : Catalog Binary64) (accepted : catalog.problems = [])
    (f g : Facts Binary64)
    (better : ∀ category ∈ catalog.categories, ∀ rule ∈ category.rules,
      (rule.status f).grade ≤ (rule.status g).grade) :
    (catalog.evaluate f).AtMost (catalog.evaluate g) := by
  have sound := Catalog.sound_of_problems_eq_nil accepted
  refine ⟨?_, ?_, sound.healthScore_mono better⟩
  · rw [Catalog.evaluate_outcomes, Catalog.evaluate_outcomes]
    have paired : List.Forall₂ (fun a b => a = b ∧ a ∈ catalog.categories) catalog.categories
        catalog.categories := List.forall₂_same.mpr fun category listed => ⟨rfl, listed⟩
    refine List.rel_flatMap paired ?_
    rintro category _ ⟨rfl, listed⟩
    simp only [List.forall₂_map_left_iff, List.forall₂_map_right_iff]
    exact List.forall₂_same.mpr fun rule member =>
      ⟨rfl, rfl, category.pointsEarned_mono sound.scoring member (better category listed rule member)⟩
  · rw [Catalog.evaluate_categoryScores, Catalog.evaluate_categoryScores]
    simp only [List.forall₂_map_left_iff, List.forall₂_map_right_iff]
    refine List.forall₂_same.mpr fun category listed => ⟨rfl, ?_⟩
    exact category.score_mono sound.scoring (better category listed)

theorem Catalog.evaluate_mono_standard :
    (Catalog.standard.evaluate (Facts.empty.insert "title.length" (.number (ofNat 20)))).AtMost
      (Catalog.standard.evaluate (Facts.empty.insert "title.length" (.number (ofNat 40)))) :=
  evaluate_mono _ standard_problems _ _ (by decide +kernel)

end Catalogs

end PageHealth
