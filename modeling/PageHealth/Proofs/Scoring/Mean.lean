import PageHealth.Proofs.Scoring.Conservation

/-! The overall score as a mean. When nothing is rounded but at the end, it is the mean of the percentages of
the categories, each weighted with its points: it lies between the least and the greatest of them, and a
category without points has no share in it. -/
namespace PageHealth

open Exact

def Category.hasPoints {α : Type} (category : Category α) : Bool := 0 < category.maxPoints

def Evaluation.percentages {α : Type} (evaluation : Evaluation α) : List Nat :=
  (evaluation.categoryScores.filter fun score => 0 < score.maxScore).map CategoryScore.percentage

def Catalog.present {α : Type} (catalog : Catalog α) : List (Category α) :=
  catalog.categories.filter Category.hasPoints

def Category.exactPercentage (category : Category ℚ) (scoring : Scoring ℚ) (facts : Facts ℚ) : ℚ :=
  (category.evaluate scoring facts).points / category.maxPoints.toNat * 100

section Ratios

variable {β : Type} {items : List β} {part whole : β → ℚ}

/-- The ratio of two sums is neither below all the ratios nor above them all: if every part were more than
its share of the sum, then so would be the sum itself. -/
theorem exists_ratio_le_and_le (nonempty : items ≠ []) (positive : ∀ item ∈ items, 0 < whole item) :
    (∃ item ∈ items, part item / whole item ≤ (items.map part).sum / (items.map whole).sum) ∧
      ∃ item ∈ items, (items.map part).sum / (items.map whole).sum ≤ part item / whole item := by
  have total : 0 < (items.map whole).sum := by
    apply List.sum_pos
    · rw [List.forall_mem_map]
      exact positive
    · simpa using nonempty
  have shared : (items.map part).sum =
      (items.map fun item => whole item * ((items.map part).sum / (items.map whole).sum)).sum := by
    rw [List.sum_map_mul_right, mul_div_cancel₀ _ total.ne']
  constructor
  · obtain ⟨item, member, below⟩ := List.exists_le_of_sum_le nonempty _ _ shared.le
    exact ⟨item, member, (div_le_iff₀' (positive item member)).mpr below⟩
  · obtain ⟨item, member, above⟩ := List.exists_le_of_sum_le nonempty _ _ shared.ge
    exact ⟨item, member, (le_div_iff₀' (positive item member)).mpr above⟩

theorem sum_map_filter (keep : β → Bool) (value : β → ℚ)
    (zero : ∀ item ∈ items, keep item = false → value item = 0) :
    ((items.filter keep).map value).sum = (items.map value).sum := by
  induction items with
  | nil => rfl
  | cons item rest ih =>
    rw [List.forall_mem_cons] at zero
    have others := ih zero.2
    cases kept : keep item with
    | true => simp only [List.filter_cons, kept, if_true, List.map_cons, List.sum_cons, others]
    | false =>
      have nothing := zero.1 kept
      simp only [List.filter_cons, kept, Bool.false_eq_true, if_false, List.map_cons, List.sum_cons,
        nothing, zero_add, others]

theorem percentage_le_percentage {a b c d : ℚ} (ordered : a / b ≤ c / d) :
    percentage a b ≤ percentage c d := by
  apply min_le_min_right
  apply nearestNat_mono
  exact mul_le_mul_of_nonneg_right ordered (Nat.cast_nonneg 100)

end Ratios

section Categories

variable {scoring : Scoring ℚ} {facts : Facts ℚ}

theorem Category.maxPoints_eq_zero (category : Category ℚ) (none : category.hasPoints = false) :
    category.maxPoints = 0 := by
  have notPositive : ¬ 0 < category.maxPoints := of_decide_eq_false none
  have most := UInt32.not_lt.mp notPositive
  exact UInt32.le_antisymm most UInt32.zero_le

theorem Category.toNat_pos (category : Category ℚ) (present : category.hasPoints = true) :
    0 < category.maxPoints.toNat :=
  UInt32.lt_iff_toNat_lt.mp (of_decide_eq_true present)

theorem Category.points_eq_zero (category : Category ℚ) (none : category.hasPoints = false) :
    (category.evaluate scoring facts).points = 0 := by
  have share (weight total : ℚ) : pointsFor weight total 0 = 0 := by
    unfold pointsFor
    split
    · exact mul_zero _
    · rfl
  change Scalar.sum _ = _
  rw [sum_eq]
  apply List.sum_eq_zero
  simp only [List.map_map, List.forall_mem_map]
  intro rule _
  change pointsFor _ _ _ * _ = 0
  rw [category.maxPoints_eq_zero none, share, zero_mul]

end Categories

namespace Catalog

variable {catalog : Catalog ℚ} {category : Category ℚ}

theorem sum_points_present (catalog : Catalog ℚ) (facts : Facts ℚ) :
    (catalog.present.map fun c => (c.evaluate catalog.scoring facts).points).sum =
      (catalog.categories.map fun c => (c.evaluate catalog.scoring facts).points).sum :=
  sum_map_filter _ _ fun c _ none => c.points_eq_zero none

theorem sum_maxPoints_present (catalog : Catalog ℚ) :
    (catalog.present.map fun c => (c.maxPoints.toNat : ℚ)).sum =
      (catalog.categories.map fun c => (c.maxPoints.toNat : ℚ)).sum := by
  apply sum_map_filter
  intro c _ none
  rw [c.maxPoints_eq_zero none]
  rfl

theorem healthScore_eq_present (catalog : Catalog ℚ) (facts : Facts ℚ) :
    (catalog.evaluate facts).healthScore =
      healthScore (catalog.present.map fun c => (c.evaluate catalog.scoring facts).points)
        (catalog.present.map fun c => Scalar.ofNat c.maxPoints.toNat) := by
  simp only [evaluate_healthScore, healthScore, sum_eq, ofNat_eq, catalog.sum_points_present,
    catalog.sum_maxPoints_present]

theorem percentages_eq (catalog : Catalog ℚ) (facts : Facts ℚ) :
    (catalog.evaluate facts).percentages = catalog.present.map fun c =>
      percentage (c.evaluate catalog.scoring facts).points c.maxPoints.toNat := by
  have kept : (catalog.evaluate facts).percentages = catalog.present.map fun c =>
      (c.evaluate catalog.scoring facts).score.percentage := by
    simp only [Evaluation.percentages, evaluate_categoryScores, List.map_map, List.filter_map, present]
    rfl
  rw [kept]
  apply List.map_congr_left
  intro c listed
  have present := (List.mem_filter.mp listed).2
  have some : c.maxPoints ≠ 0 := fun none => (c.toNat_pos present).ne' (congrArg UInt32.toNat none)
  exact Category.evaluate_percentage some catalog.scoring facts

theorem Shareable.present_ne_nil (shareable : catalog.Shareable) : catalog.present ≠ [] := by
  obtain ⟨category, member, positive⟩ := totalMaxPoints_ne_zero_iff.mp shareable.points_pos
  exact List.ne_nil_of_mem (List.mem_filter.mpr ⟨member, decide_eq_true positive⟩)

theorem Shareable.toNat_pos (listed : category ∈ catalog.present) :
    (0 : ℚ) < category.maxPoints.toNat := by
  exact_mod_cast category.toNat_pos (List.mem_filter.mp listed).2

theorem Shareable.healthScore_eq_mean (shareable : catalog.Shareable) (facts : Facts ℚ) :
    (catalog.evaluate facts).healthScore = percentage
      (catalog.present.map fun c => (c.evaluate catalog.scoring facts).points).sum
      (catalog.present.map fun c => (c.maxPoints.toNat : ℚ)).sum := by
  have overall := @Shareable.healthScore_eq catalog facts shareable
  simp only [sum_eq, ofNat_eq] at overall
  rw [overall, catalog.sum_points_present, catalog.sum_maxPoints_present]

theorem Shareable.exists_percentages (shareable : catalog.Shareable) (facts : Facts ℚ) :
    (∃ p ∈ (catalog.evaluate facts).percentages, p ≤ (catalog.evaluate facts).healthScore) ∧
      ∃ p ∈ (catalog.evaluate facts).percentages, (catalog.evaluate facts).healthScore ≤ p := by
  rw [shareable.healthScore_eq_mean, catalog.percentages_eq]
  obtain ⟨⟨low, listed, below⟩, high, listed', above⟩ :=
    @exists_ratio_le_and_le _ _ (fun c => (c.evaluate catalog.scoring facts).points) _
      shareable.present_ne_nil fun c listed => Shareable.toNat_pos listed
  exact ⟨⟨_, List.mem_map_of_mem listed, percentage_le_percentage below⟩,
    _, List.mem_map_of_mem listed', percentage_le_percentage above⟩

theorem sum_weighted (catalog : Catalog ℚ) (facts : Facts ℚ) :
    (catalog.present.map fun c =>
        (c.maxPoints.toNat : ℚ) * c.exactPercentage catalog.scoring facts).sum =
      (catalog.present.map fun c => (c.evaluate catalog.scoring facts).points).sum * 100 := by
  rw [← List.sum_map_mul_right]
  congr 1
  apply List.map_congr_left
  intro c listed
  have positive := (Shareable.toNat_pos listed).ne'
  unfold Category.exactPercentage
  field_simp

end Catalog

/-- The overall score is a mean of the percentages of the categories with something to gain, and the others
might be replaced by any categories without points. -/
structure Evaluation.IsMean (catalog : Catalog ℚ) (facts : Facts ℚ) (evaluation : Evaluation ℚ) :
    Prop where
  /-- Percentages and score are rounded apart from each other. -/
  weighted : evaluation.healthScore = wholePoints
    ((catalog.present.map fun c =>
        (c.maxPoints.toNat : ℚ) * c.exactPercentage catalog.scoring facts).sum /
      (catalog.present.map fun c => (c.maxPoints.toNat : ℚ)).sum)
  between : ∃ least greatest, evaluation.percentages.min? = some least ∧
    evaluation.percentages.max? = some greatest ∧
    least ≤ evaluation.healthScore ∧ evaluation.healthScore ≤ greatest
  unweighted : ∀ other : Catalog ℚ, other.scoring = catalog.scoring → other.present = catalog.present →
    (other.evaluate facts).healthScore = evaluation.healthScore

namespace Catalog

theorem evaluate_isMean (catalog : Catalog ℚ) (accepted : catalog.problems = []) (facts : Facts ℚ) :
    (catalog.evaluate facts).IsMean catalog facts := by
  have shareable := shareable_of_problems_eq_nil accepted
  constructor
  · rw [catalog.sum_weighted, ← div_mul_eq_mul_div]
    exact shareable.healthScore_eq_mean facts
  · obtain ⟨⟨low, listed, below⟩, high, listed', above⟩ := shareable.exists_percentages facts
    have nonempty := List.ne_nil_of_mem listed
    obtain ⟨least, isLeast⟩ := Option.isSome_iff_exists.mp (List.isSome_min?_iff.mpr nonempty)
    obtain ⟨greatest, isGreatest⟩ := Option.isSome_iff_exists.mp (List.isSome_max?_iff.mpr nonempty)
    refine ⟨least, greatest, isLeast, isGreatest, ?_, ?_⟩
    · exact Nat.le_trans ((List.min?_eq_some_iff.mp isLeast).2 low listed) below
    · exact Nat.le_trans above ((List.max?_eq_some_iff.mp isGreatest).2 high listed')
  · intro other scoring present
    rw [other.healthScore_eq_present, catalog.healthScore_eq_present, scoring, present]

def ofUnequal : Catalog ℚ where
  version := "1"
  engine := ""
  scoring := Scoring.standard
  categories :=
    [⟨"title", "Title", 10, [⟨"present", .high, "", "", some [⟨"title", "equals", .bool true⟩], none⟩]⟩,
     ⟨"language", "Language", 0, [⟨"set", .low, "", "", some [⟨"language", "equals", .bool true⟩], none⟩]⟩,
     ⟨"description", "Description", 3,
      [⟨"length", .low, "", "", none,
        some ⟨⟨"length", "gt", .number 50⟩, some ⟨"length", "gt", .number 20⟩⟩⟩]⟩]

theorem evaluate_isMean_ofUnequal :
    let page : Facts ℚ := (Facts.empty.insert "length" (.number 30)).insert "title" (.bool true)
    (ofUnequal.evaluate page).IsMean ofUnequal page ∧
      (ofUnequal.evaluate page).percentages = [100, 50] ∧
      (ofUnequal.evaluate page).healthScore = 88 := by
  intro page
  refine ⟨evaluate_isMean _ (List.isEmpty_iff.mp ?_) _, ?_, ?_⟩
  all_goals decide +kernel

end Catalog

end PageHealth
