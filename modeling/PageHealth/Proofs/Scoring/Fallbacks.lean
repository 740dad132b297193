import PageHealth.Proofs.Scoring.FullMarks

/-! Scoring has ways out for catalogs with problems: a weight or share out of range counts as the nearest
one in range, a category without weight and a catalog without points score zero, and a rule without
exactly one mode is decided all the same. A catalog without problems takes none of them. -/
namespace PageHealth

open Binary64

inductive Rule.Decided (rule : Rule Binary64) : Prop where
  | thresholds (thresholds : Thresholds Binary64) (given : rule.thresholds = some thresholds)
      (alone : rule.checks = none)
      (status : ∀ facts, rule.status facts =
        if thresholds.pass.holds facts then .pass
        else if thresholds.warning.any fun c => c.holds facts then .warning
        else .fail)
  | checks (first : Condition Binary64) (others : List (Condition Binary64))
      (given : rule.checks = some (first :: others)) (alone : rule.thresholds = none)
      (status : ∀ facts, rule.status facts =
        if (first :: others).all fun c => c.holds facts then .pass else .fail)

/-- The total of all points as a word of 64 bits, which begins again at zero when it is passed. -/
def Catalog.totalWord {α : Type} (catalog : Catalog α) : UInt64 :=
  catalog.categories.foldl (fun n c => n + c.maxPoints.toUInt64) 0

/-- A catalog that is scored without ways out. Leaving the tables as they are changes no number, but for the
sign of a zero. -/
structure Catalog.NeedsNoFallback (catalog : Catalog Binary64) : Prop where
  weight_same : ∀ severity, (Scalar.positivePart (catalog.scoring.severityWeights.weight severity)).same
    (catalog.scoring.severityWeights.weight severity) = true
  weight_kept : ∀ severity, catalog.scoring.severityWeights.weight severity ≠ zero true →
    Scalar.positivePart (catalog.scoring.severityWeights.weight severity) =
      catalog.scoring.severityWeights.weight severity
  share_kept : ∀ status, Scalar.clampUnit (catalog.scoring.statusScores.share status) =
    catalog.scoring.statusScores.share status
  total_same : ∀ category ∈ catalog.categories, (category.weight catalog.scoring).same
    (Scalar.sum (category.rules.map fun rule =>
      catalog.scoring.severityWeights.weight rule.severity)) = true
  weight_pos : ∀ category ∈ catalog.categories, 0 < category.weight catalog.scoring
  worth : ∀ category ∈ catalog.categories, ∀ rule ∈ category.rules,
    pointsFor (rule.weight catalog.scoring) (category.weight catalog.scoring) category.maxPoints =
      rule.weight catalog.scoring / category.weight catalog.scoring * category.budget
  decided : ∀ category ∈ catalog.categories, ∀ rule ∈ category.rules, rule.Decided
  points_pos_iff : 0 < Scalar.sum (catalog.categories.map Category.budget) ↔ 0 < catalog.totalMaxPoints
  points_pos : 0 < catalog.totalMaxPoints
  points_exact : catalog.totalWord.toNat = catalog.totalMaxPoints
  healthScore : ∀ facts, (catalog.evaluate facts).healthScore =
    min (percentage
      (Scalar.sum (catalog.categories.map fun c => (c.evaluate catalog.scoring facts).points))
      (Scalar.sum (catalog.categories.map Category.budget))) 100

section Tables

variable {x y : Binary64}

theorem Binary64.same_of_le_of_le (below : x ≤ y) (above : y ≤ x) : x.same y = true := by
  obtain ⟨i, j, hi, hj, first⟩ := le_iff_place.mp below
  obtain ⟨j', i', hj', hi', second⟩ := le_iff_place.mp above
  obtain rfl : i = i' := Option.some.inj (hi.symm.trans hi')
  obtain rfl : j = j' := Option.some.inj (hj.symm.trans hj')
  simp only [same, hi, hj, decide_eq_true_eq]
  exact Int.le_antisymm first second

theorem Binary64.positivePart_le (nonneg : 0 ≤ x) :
    Scalar.positivePart x ≤ x ∧ x ≤ Scalar.positivePart x := by
  obtain ⟨rank, ranked⟩ := nonneg_iff.mp nonneg
  have kept := positivePart_of_nonneg ranked
  exact ⟨(kept.le_iff ranked).mpr (Nat.le_refl rank), (ranked.le_iff kept).mpr (Nat.le_refl rank)⟩

theorem Binary64.positivePart_eq (nonneg : 0 ≤ x) (plus : x ≠ zero true) :
    Scalar.positivePart x = x := by
  obtain ⟨rank, ranked⟩ := nonneg_iff.mp nonneg
  change (if 0 < x then x else 0) = x
  split_ifs with positive
  · rfl
  · -- What is neither negative nor positive is a zero, and there are two of them.
    obtain rfl : rank = 0 := by
      have := mt (hasRank_zero.lt_iff ranked).mpr positive
      omega
    have zero : (0 : Binary64) = zero false := by decide +kernel
    rcases ranked.cases with ⟨_, rfl⟩ | ⟨same, _⟩
    · exact zero
    · exact absurd same plus

end Tables

section Rules

variable {rule : Rule Binary64}

theorem Rule.WellFormed.decided (wellFormed : rule.WellFormed) : rule.Decided := by
  have mode := wellFormed.one_mode
  have nonempty := wellFormed.checks_nonempty
  cases hasThresholds : rule.thresholds with
  | some thresholds =>
    have alone : rule.checks = none := by simpa [hasThresholds] using mode
    exact .thresholds thresholds hasThresholds alone fun facts => by simp [Rule.status, hasThresholds]
  | none =>
    cases hasChecks : rule.checks with
    | none => simp [hasThresholds, hasChecks] at mode
    | some checks =>
      cases checks with
      | nil => exact absurd hasChecks nonempty
      | cons first others =>
        exact .checks first others hasChecks hasThresholds fun facts => by
          simp [Rule.status, hasThresholds, hasChecks]

end Rules

section Totals

variable {scoring : Scoring Binary64} {category : Category Binary64}

theorem Binary64.sum_pos_iff {xs : List Binary64} (nonneg : ∀ x ∈ xs, 0 ≤ x) :
    0 < Scalar.sum xs ↔ ∃ x ∈ xs, 0 < x := by
  have none := sum_le_zero_iff nonneg
  constructor
  · intro positive
    by_contra empty
    exact not_lt_of_le (none.mpr empty) positive
  · intro some
    exact lt_of_not_le (sum_nonneg nonneg) (ofNat_nonneg 0) fun most => none.mp most some

theorem Category.budget_pos_iff : 0 < category.budget ↔ 0 < category.maxPoints := by
  constructor
  · intro positive
    by_contra none
    have zero : category.maxPoints = 0 := by simpa using none
    rw [Category.budget, zero] at positive
    exact absurd positive (by decide +kernel)
  · intro present
    exact lt_of_one_le (category.one_le_budget (UInt32.ne_of_lt present).symm)

/-- The validator adds the weights as they are, the engine adds what is left of them above zero. -/
theorem Category.weight_same (sound : scoring.Sound) (category : Category Binary64) :
    (category.weight scoring).same (Scalar.sum (category.rules.map fun rule =>
      scoring.severityWeights.weight rule.severity)) = true := by
  apply same_of_le_of_le
  · refine sum_le_sum (fun w hw => (category.weights_bounds sound w hw).1) ?_
    simp only [List.forall₂_map_left_iff, List.forall₂_map_right_iff]
    exact List.forall₂_same.mpr fun rule _ => (positivePart_le (sound.weight_nonneg rule.severity)).1
  · exact category.sum_weights_le sound

theorem pointsFor_of_pos {weight total : Binary64} (positive : 0 < total) (category : Category Binary64) :
    pointsFor weight total category.maxPoints = weight / total * category.budget :=
  if_pos positive

theorem toNat_foldl_add {β : Type} {items : List β} {part : β → UInt64} {start : UInt64}
    (fits : start.toNat + (items.map fun item => (part item).toNat).sum < 2 ^ 64) :
    (items.foldl (fun n item => n + part item) start).toNat =
      start.toNat + (items.map fun item => (part item).toNat).sum := by
  induction items generalizing start with
  | nil => rfl
  | cons item rest ih =>
    simp only [List.map_cons, List.sum_cons] at fits ⊢
    have step : (start + part item).toNat = start.toNat + (part item).toNat := by
      rw [UInt64.toNat_add, Nat.mod_eq_of_lt (by omega)]
    rw [List.foldl_cons, ih (by omega), step, Nat.add_assoc]

end Totals

namespace Catalog

variable {catalog : Catalog Binary64}

theorem points_pos_iff :
    0 < Scalar.sum (catalog.categories.map Category.budget) ↔ 0 < catalog.totalMaxPoints := by
  rw [sum_pos_iff, Nat.pos_iff_ne_zero, totalMaxPoints_ne_zero_iff]
  · simp only [List.mem_map, exists_exists_and_eq_and, Category.budget_pos_iff]
  · intro x hx
    obtain ⟨category, _, rfl⟩ := List.mem_map.mp hx
    exact category.budget_nonneg

theorem toNat_totalWord (fits : catalog.totalMaxPoints < 2 ^ 64) :
    catalog.totalWord.toNat = catalog.totalMaxPoints := by
  have exact := @toNat_foldl_add _ catalog.categories (fun c => c.maxPoints.toUInt64) 0
  simp only [UInt32.toNat_toUInt64, UInt64.toNat_zero, Nat.zero_add] at exact
  rw [totalMaxPoints_eq_sum] at fits ⊢
  exact exact fits

theorem needsNoFallback_of_accepted (catalog : Catalog Binary64)
    (few : catalog.categories.length < 2 ^ 32) (accepted : catalog.problems = []) :
    catalog.NeedsNoFallback := by
  have wellFormed := problems_eq_nil_iff.mp accepted
  have sound := sound_of_problems_eq_nil accepted
  have weighty : ∀ category ∈ catalog.categories, 0 < category.weight catalog.scoring :=
    fun category member => (sound.category category member).weight_positive sound.scoring
  constructor
  case weight_same =>
    intro severity
    have kept := positivePart_le (sound.scoring.weight_nonneg severity)
    exact same_of_le_of_le kept.1 kept.2
  case weight_kept =>
    exact fun severity plus => positivePart_eq (sound.scoring.weight_nonneg severity) plus
  case share_kept =>
    exact fun status => clampUnit_of_mem (sound.scoring.share_nonneg status)
      (sound.scoring.share_le_one status)
  case total_same => exact fun category _ => category.weight_same sound.scoring
  case weight_pos => exact weighty
  case worth => exact fun category member rule _ => pointsFor_of_pos (weighty category member) category
  case decided =>
    exact fun category member rule listed =>
      ((wellFormed.categories category member).rules rule listed).decided
  case points_pos_iff => exact points_pos_iff
  case points_pos => exact Nat.pos_of_ne_zero sound.points_pos
  case points_exact => exact toNat_totalWord (totalMaxPoints_lt few)
  case healthScore => exact sound.healthScore_eq

/-- Weights that overflow when they are added, beside one that is a negative zero. -/
theorem needsNoFallback_ofWeights :
    (ofWeights ⟨ofNat (10 ^ 308), ofNat (10 ^ 308), zero true⟩).NeedsNoFallback :=
  needsNoFallback_of_accepted _ (by decide +kernel) (List.isEmpty_iff.mp (by decide +kernel))

end Catalog

end PageHealth
