import Mathlib.Algebra.Order.Field.Basic
import PageHealth.Proofs.Scoring.Conservation

/-! Only the ratios of severity weights matter. When nothing is rounded, one positive factor on all three
weights multiplies the weight of every rule and of its category alike and cancels out of the rule's share,
and no weight or sum of weights changes its sign. -/
namespace PageHealth

open Exact

def SeverityWeights.scale (factor : ℚ) (weights : SeverityWeights ℚ) : SeverityWeights ℚ where
  high := weights.high * factor
  medium := weights.medium * factor
  low := weights.low * factor

def Scoring.scaleWeights (factor : ℚ) (scoring : Scoring ℚ) : Scoring ℚ :=
  { scoring with severityWeights := scoring.severityWeights.scale factor }

def Catalog.scaleWeights (factor : ℚ) (catalog : Catalog ℚ) : Catalog ℚ :=
  { catalog with scoring := catalog.scoring.scaleWeights factor }

theorem SeverityWeights.weight_scale (factor : ℚ) (weights : SeverityWeights ℚ) (severity : Severity) :
    (weights.scale factor).weight severity = weights.weight severity * factor := by
  cases severity <;> rfl

section Numbers

variable {factor : ℚ}

theorem zero_less_scale (positive : 0 < factor) (x : ℚ) :
    Scalar.less (Scalar.ofNat 0) (x * factor) = Scalar.less (Scalar.ofNat 0) x :=
  decide_eq_decide.mpr (mul_pos_iff_of_pos_right positive)

theorem scale_less_zero (positive : 0 < factor) (x : ℚ) :
    Scalar.less (x * factor) (Scalar.ofNat 0) = Scalar.less x (Scalar.ofNat 0) :=
  decide_eq_decide.mpr (lt_iff_lt_of_le_iff_le (mul_nonneg_iff_of_pos_right positive))

theorem scale_atMost_zero (positive : 0 < factor) (x : ℚ) :
    Scalar.atMost (x * factor) (Scalar.ofNat 0) = Scalar.atMost x (Scalar.ofNat 0) :=
  decide_eq_decide.mpr (le_iff_le_iff_lt_iff_lt.mpr (mul_pos_iff_of_pos_right positive))

theorem positivePart_scale (positive : 0 < factor) (x : ℚ) :
    Scalar.positivePart (x * factor) = Scalar.positivePart x * factor := by
  unfold Scalar.positivePart
  rw [zero_less_scale positive]
  split
  · rfl
  · exact (zero_mul factor).symm

theorem sum_scale {β : Type} (items : List β) (part : β → ℚ) (factor : ℚ) :
    Scalar.sum (items.map fun item => part item * factor) = Scalar.sum (items.map part) * factor := by
  rw [sum_eq, sum_eq, List.sum_map_mul_right]

/-- The factor cancels out of a share, and a total that is not positive stays so. -/
theorem pointsFor_scale (positive : 0 < factor) (weight total : ℚ) (maxPoints : UInt32) :
    pointsFor (weight * factor) (total * factor) maxPoints = pointsFor weight total maxPoints := by
  unfold pointsFor
  rw [zero_less_scale positive, mul_div_mul_right weight total positive.ne']

end Numbers

section Scores

variable {factor : ℚ} (positive : 0 < factor) (scoring : Scoring ℚ) (category : Category ℚ)

include positive

theorem Rule.weight_scaleWeights (rule : Rule ℚ) :
    rule.weight (scoring.scaleWeights factor) = rule.weight scoring * factor := by
  unfold Rule.weight
  rw [← positivePart_scale positive, ← SeverityWeights.weight_scale]
  rfl

theorem Category.weight_scaleWeights :
    category.weight (scoring.scaleWeights factor) = category.weight scoring * factor := by
  unfold Category.weight
  simp only [Rule.weight_scaleWeights positive, sum_scale]

theorem Category.result_scaleWeights (facts : Facts ℚ) :
    category.evaluate (scoring.scaleWeights factor) facts = category.evaluate scoring facts := by
  have outcome : category.outcome (scoring.scaleWeights factor)
      (category.weight (scoring.scaleWeights factor)) facts =
        category.outcome scoring (category.weight scoring) facts := by
    funext rule
    unfold Category.outcome
    rw [category.weight_scaleWeights positive, Rule.weight_scaleWeights positive,
      pointsFor_scale positive]
    rfl
  simp only [Category.evaluate, outcome]

end Scores

section Problems

variable {factor : ℚ} (positive : 0 < factor)

include positive

theorem SeverityWeights.problems_scale_iff (weights : SeverityWeights ℚ) :
    (weights.scale factor).problems = [] ↔ weights.problems = [] := by
  simp only [problems, List.filterMap_eq_nil_iff, weight_scale, scale_less_zero positive,
    ite_eq_right_iff, reduceCtorEq]
  exact Iff.rfl

/-- The sum that has to be positive takes in negative weights as they are. -/
theorem Category.rulesProblems_scaleWeights (scoring : Scoring ℚ) (index : Nat)
    (category : Category ℚ) :
    category.rulesProblems (scoring.scaleWeights factor) index =
      category.rulesProblems scoring index := by
  have total : Scalar.sum (category.rules.map fun rule =>
      (scoring.scaleWeights factor).severityWeights.weight rule.severity) =
        Scalar.sum (category.rules.map fun rule =>
          scoring.severityWeights.weight rule.severity) * factor := by
    rw [← sum_scale]
    simp only [Scoring.scaleWeights, SeverityWeights.weight_scale]
  unfold Category.rulesProblems
  simp only [total, scale_atMost_zero positive]

theorem categoryProblems_scaleWeights (scoring : Scoring ℚ) (categories : List (Category ℚ))
    (index : Nat) (earlier : List String) :
    categoryProblems (scoring.scaleWeights factor) index earlier categories =
      categoryProblems scoring index earlier categories := by
  induction categories generalizing index earlier with
  | nil => rfl
  | cons category rest ih =>
    simp only [categoryProblems, ih, Category.rulesProblems_scaleWeights positive]

end Problems

namespace Catalog

theorem problems_scaleWeights_iff (catalog : Catalog ℚ) {factor : ℚ} (positive : 0 < factor) :
    (catalog.scaleWeights factor).problems = [] ↔ catalog.problems = [] := by
  have weights := catalog.scoring.severityWeights.problems_scale_iff positive
  have categories := categoryProblems_scaleWeights positive catalog.scoring catalog.categories 0 []
  simp only [problems, List.append_eq_nil_iff]
  simp only [scaleWeights, Scoring.scaleWeights] at categories ⊢
  rw [categories, weights]
  rfl

/-- Weights that are all multiplied by one positive factor give the same result to the last point, and
are accepted in the same catalogs. -/
theorem evaluate_scaleWeights (catalog : Catalog ℚ) (facts : Facts ℚ) {factor : ℚ}
    (positive : 0 < factor) :
    (catalog.scaleWeights factor).evaluate facts = catalog.evaluate facts ∧
      ((catalog.scaleWeights factor).problems = [] ↔ catalog.problems = []) := by
  constructor
  · have results (category : Category ℚ) :=
      category.result_scaleWeights positive catalog.scoring facts
    simp only [evaluate, scaleWeights, results]
  · exact catalog.problems_scaleWeights_iff positive

def ofSigns : Catalog ℚ where
  version := "1"
  engine := ""
  scoring := ⟨⟨3, -1, 1 / 2⟩, StatusScores.standard⟩
  categories := [⟨"title", "Title", 10,
    [⟨"present", .high, "", "", some [⟨"title", "equals", .bool true⟩], none⟩,
     ⟨"unique", .medium, "", "", some [⟨"unique", "equals", .bool true⟩], none⟩,
     ⟨"length", .low, "", "", none,
      some ⟨⟨"length", "gt", .number 50⟩, some ⟨"length", "gt", .number 20⟩⟩⟩]⟩]

theorem evaluate_scaleWeights_ofSigns :
    let page : Facts ℚ := (Facts.empty.insert "length" (.number 30)).insert "title" (.bool true)
    (ofSigns.scaleWeights (1 / 7)).evaluate page = ofSigns.evaluate page ∧
      ((ofSigns.scaleWeights (1 / 7)).problems = [] ↔ ofSigns.problems = []) ∧
      (ofSigns.evaluate page).healthScore = 93 ∧ ofSigns.problems ≠ [] := by
  intro page
  have positive : (0 : ℚ) < 1 / 7 := by norm_num
  obtain ⟨same, accepted⟩ := evaluate_scaleWeights ofSigns page positive
  exact ⟨same, accepted, by decide +kernel, by decide +kernel⟩

end Catalog

end PageHealth
