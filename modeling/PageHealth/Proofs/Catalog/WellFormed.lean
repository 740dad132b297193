import Mathlib.Algebra.BigOperators.Group.List.Basic
import Mathlib.Algebra.Order.BigOperators.Group.List
import Mathlib.Data.List.Nodup
import PageHealth.Catalog.Problem
import PageHealth.Catalog.Standard
import PageHealth.Proofs.Number.Sum

/-! A catalog has no problems exactly if it is well formed. The checks walk over the catalog and keep
what they have seen; being well formed is said of the whole catalog at once. -/
namespace PageHealth

open Binary64

/-- Scoring tables in range and in order. -/
structure Scoring.Sound (scoring : Scoring Binary64) : Prop where
  weight_nonneg : ∀ severity, 0 ≤ scoring.severityWeights.weight severity
  weight_finite : ∀ severity, (scoring.severityWeights.weight severity).isFinite
  share_nonneg : ∀ status, 0 ≤ scoring.statusScores.share status
  share_le_one : ∀ status, scoring.statusScores.share status ≤ 1
  warning_le_pass : scoring.statusScores.warning ≤ scoring.statusScores.pass
  fail_le_warning : scoring.statusScores.fail ≤ scoring.statusScores.warning

/-- A condition whose field is a path of keys, none of them empty. -/
structure Condition.WellFormed {α : Type} (condition : Condition α) : Prop where
  field_shown : isBlankText condition.field = false
  segments_nonempty : ∀ segment ∈ pathSegments condition.field, segment ≠ ""

structure Rule.WellFormed {α : Type} (rule : Rule α) : Prop where
  one_mode : rule.checks.isSome ≠ rule.thresholds.isSome
  checks_nonempty : rule.checks ≠ some []
  conditions : ∀ placed ∈ rule.conditions, placed.2.WellFormed

structure Category.WellFormed (scoring : Scoring Binary64) (category : Category Binary64) : Prop where
  rules_nonempty : category.rules ≠ []
  some_weight : ∃ rule ∈ category.rules, 0 < scoring.severityWeights.weight rule.severity
  ids_shown : ∀ rule ∈ category.rules, isBlankText rule.id = false
  ids_nodup : (category.rules.map Rule.id).Nodup
  rules : ∀ rule ∈ category.rules, rule.WellFormed

structure Catalog.WellFormed (catalog : Catalog Binary64) : Prop where
  version_shown : isBlankText catalog.version = false
  scoring : catalog.scoring.Sound
  share_finite : ∀ status, (catalog.scoring.statusScores.share status).isFinite
  categories_nonempty : catalog.categories ≠ []
  some_points : ∃ category ∈ catalog.categories, 0 < category.maxPoints
  ids_shown : ∀ category ∈ catalog.categories, isBlankText category.id = false
  ids_nodup : (catalog.categories.map Category.id).Nodup
  categories : ∀ category ∈ catalog.categories, category.WellFormed catalog.scoring

section Tables

theorem SeverityWeights.problems_eq_nil_iff {weights : SeverityWeights Binary64} :
    weights.problems = [] ↔
      ∀ severity, (weights.weight severity).isFinite ∧ 0 ≤ weights.weight severity := by
  unfold problems
  simp only [List.filterMap_eq_nil_iff, ite_eq_right_iff, reduceCtorEq, imp_false, Bool.or_eq_true,
    Bool.not_eq_true', not_or, Bool.not_eq_false]
  constructor
  · intro inRange severity
    have listed : severity ∈ Severity.all := by cases severity <;> decide
    obtain ⟨finite, notLess⟩ := inRange severity listed
    -- What is not below zero is at least zero only if it is a number.
    exact ⟨finite, nonneg_of_isFinite finite notLess⟩
  · intro inRange severity _
    exact ⟨(inRange severity).1, not_lt_of_le (inRange severity).2⟩

theorem StatusScores.problems_eq_nil_iff {scores : StatusScores Binary64} :
    scores.problems = [] ↔
      (∀ status, (scores.share status).isFinite ∧ 0 ≤ scores.share status ∧ scores.share status ≤ 1) ∧
        scores.warning ≤ scores.pass ∧ scores.fail ≤ scores.warning := by
  simp only [problems, List.append_eq_nil_iff, List.filterMap_eq_nil_iff, ite_eq_left_iff,
    ite_eq_right_iff, reduceCtorEq, imp_false, not_not, Bool.and_eq_true, and_assoc]
  constructor
  · rintro ⟨inRange, first, second⟩
    have bounds (status : Status) := inRange status (by cases status <;> decide)
    have nonneg (status : Status) := (bounds status).2.1
    exact ⟨bounds, le_of_not_lt (nonneg .pass) (nonneg .warning) first,
      le_of_not_lt (nonneg .warning) (nonneg .fail) second⟩
  · rintro ⟨bounds, first, second⟩
    exact ⟨fun status _ => bounds status, not_lt_of_le first, not_lt_of_le second⟩

theorem Scoring.sound_iff {scoring : Scoring Binary64} :
    scoring.severityWeights.problems = [] ∧ scoring.statusScores.problems = [] ↔
      scoring.Sound ∧ ∀ status, (scoring.statusScores.share status).isFinite := by
  rw [SeverityWeights.problems_eq_nil_iff, StatusScores.problems_eq_nil_iff]
  constructor
  · rintro ⟨weights, shares, first, second⟩
    exact ⟨⟨fun s => (weights s).2, fun s => (weights s).1, fun s => (shares s).2.1,
      fun s => (shares s).2.2, first, second⟩, fun s => (shares s).1⟩
  · rintro ⟨sound, finite⟩
    exact ⟨fun s => ⟨sound.weight_finite s, sound.weight_nonneg s⟩,
      fun s => ⟨finite s, sound.share_nonneg s, sound.share_le_one s⟩,
      sound.warning_le_pass, sound.fail_le_warning⟩

end Tables

section Ids

variable {id : String} {earlier ids : List String}

/-- Going on past an id, with that id among those seen, is the same as asking for distinct ids none of
which was seen. -/
theorem fresh_cons_iff :
    (id ∉ earlier ∧ (∀ other ∈ ids, other ∉ id :: earlier) ∧ ids.Nodup) ↔
      (∀ other ∈ id :: ids, other ∉ earlier) ∧ (id :: ids).Nodup := by
  rw [List.forall_mem_cons, List.nodup_cons]
  simp only [List.mem_cons, not_or]
  constructor
  · rintro ⟨new, apart, distinct⟩
    exact ⟨⟨new, fun other member => (apart other member).2⟩,
      fun member => (apart id member).1 rfl, distinct⟩
  · rintro ⟨⟨new, fresh⟩, once, distinct⟩
    refine ⟨new, fun other member => ⟨?_, fresh other member⟩, distinct⟩
    rintro rfl
    exact once member

theorem idProblems_eq_nil_iff {α : Type} {blank repeated : Problem α} :
    (if isBlankText id then [blank] else if earlier.contains id then [repeated] else []) = [] ↔
      isBlankText id = false ∧ id ∉ earlier := by
  by_cases hidden : isBlankText id = true
  · simp [hidden]
  · simp [hidden]

end Ids

section Rules

variable {α : Type} {condition : Condition α} {rule : Rule α} {rules : List (Rule α)}

theorem Condition.problems_eq_nil_iff {place : ConditionPlace} :
    condition.problems place = [] ↔ condition.WellFormed := by
  have segments : hasEmptySegment condition.field = false ↔
      ∀ segment ∈ pathSegments condition.field, segment ≠ "" := by
    simp [hasEmptySegment, List.any_eq_false]
  unfold problems
  constructor
  · intro none
    split_ifs at none with hidden empty
    exact ⟨by simpa using hidden, segments.mp (by simpa using empty)⟩
  · rintro ⟨shown, full⟩
    rw [if_neg (by simp [shown]), if_neg (by simp [segments.mpr full])]

theorem Rule.modeProblems_eq_nil_iff {place : RulePlace} :
    rule.modeProblems place = [] ↔ rule.WellFormed := by
  have wellFormed : rule.WellFormed ↔ rule.checks.isSome ≠ rule.thresholds.isSome ∧
      rule.checks ≠ some [] ∧ ∀ placed ∈ rule.conditions, placed.2.WellFormed := by
    constructor
    · rintro ⟨mode, nonempty, fields⟩
      exact ⟨mode, nonempty, fields⟩
    · rintro ⟨mode, nonempty, fields⟩
      exact ⟨mode, nonempty, fields⟩
  rw [wellFormed]
  unfold modeProblems
  rcases hasChecks : rule.checks with _ | (_ | ⟨first, others⟩)
  · cases hasThresholds : rule.thresholds <;> simp [Condition.problems_eq_nil_iff]
  · cases hasThresholds : rule.thresholds <;> simp
  · cases hasThresholds : rule.thresholds <;> simp [Condition.problems_eq_nil_iff]

theorem ruleProblems_eq_nil_iff {category index : Nat} {categoryId : String} {earlier : List String} :
    ruleProblems category categoryId index earlier rules = [] ↔
      (∀ rule ∈ rules, isBlankText rule.id = false ∧ rule.WellFormed) ∧
        (∀ id ∈ rules.map Rule.id, id ∉ earlier) ∧ (rules.map Rule.id).Nodup := by
  -- The ids seen so far are the only memory of the walk; where it stands does not matter.
  induction rules generalizing index earlier with
  | nil => simp [ruleProblems]
  | cons rule rest ih =>
    simp only [ruleProblems, List.append_eq_nil_iff, idProblems_eq_nil_iff,
      Rule.modeProblems_eq_nil_iff, ih, List.map_cons, ← fresh_cons_iff]
    rw [List.forall_mem_cons]
    tauto

end Rules

section Categories

variable {α : Type} [Scalar α] {scoring : Scoring α} {category : Category α}
  {categories : List (Category α)}

structure Category.RulesFit (scoring : Scoring α) (category : Category α) : Prop where
  rules_nonempty : category.rules ≠ []
  weight_pos : ¬ Scalar.atMost (Scalar.sum (category.rules.map fun rule =>
    scoring.severityWeights.weight rule.severity)) (Scalar.ofNat 0) = true
  ids_shown : ∀ rule ∈ category.rules, isBlankText rule.id = false
  ids_nodup : (category.rules.map Rule.id).Nodup
  rules : ∀ rule ∈ category.rules, rule.WellFormed

theorem Category.rulesProblems_eq_nil_iff {index : Nat} :
    category.rulesProblems scoring index = [] ↔ category.RulesFit scoring := by
  unfold rulesProblems
  by_cases none : category.rules = []
  · rw [if_pos (by simp [none])]
    exact iff_of_false (by simp) fun fit => fit.rules_nonempty none
  · rw [if_neg (by simpa using none)]
    simp only [List.append_eq_nil_iff, ite_eq_right_iff, reduceCtorEq, imp_false,
      ruleProblems_eq_nil_iff]
    constructor
    · rintro ⟨weight, each, _, distinct⟩
      exact ⟨none, weight, fun rule member => (each rule member).1, distinct,
        fun rule member => (each rule member).2⟩
    · rintro ⟨_, weight, shown, distinct, rules⟩
      exact ⟨weight, fun rule member => ⟨shown rule member, rules rule member⟩, by simp, distinct⟩

theorem categoryProblems_eq_nil_iff {index : Nat} {earlier : List String} :
    categoryProblems scoring index earlier categories = [] ↔
      (∀ category ∈ categories, isBlankText category.id = false ∧ category.RulesFit scoring) ∧
        (∀ id ∈ categories.map Category.id, id ∉ earlier) ∧ (categories.map Category.id).Nodup := by
  induction categories generalizing index earlier with
  | nil => simp [categoryProblems]
  | cons category rest ih =>
    simp only [categoryProblems, List.append_eq_nil_iff, idProblems_eq_nil_iff,
      Category.rulesProblems_eq_nil_iff, ih, List.map_cons, ← fresh_cons_iff]
    rw [List.forall_mem_cons]
    tauto

end Categories

section Weights

variable {scoring : Scoring Binary64} {category : Category Binary64}

theorem Binary64.sum_le_zero_iff {xs : List Binary64} (nonneg : ∀ x ∈ xs, 0 ≤ x) :
    Scalar.sum xs ≤ 0 ↔ ¬ ∃ x ∈ xs, 0 < x := by
  constructor
  · rintro most ⟨x, member, positive⟩
    exact not_lt_of_le (Binary64.le_trans (mem_le_sum nonneg member) most) positive
  · intro none
    have zero : (0 : Binary64) ≤ 0 := ofNat_nonneg 0
    refine sum_le_of_absorbs zero zero_absorbs fun x member => ⟨nonneg x member, ?_⟩
    exact le_of_not_lt zero (nonneg x member) fun positive => none ⟨x, member, positive⟩

theorem Category.weight_pos_iff (sound : scoring.Sound) :
    ¬ Scalar.sum (category.rules.map fun rule =>
      scoring.severityWeights.weight rule.severity) ≤ 0 ↔
        ∃ rule ∈ category.rules, 0 < scoring.severityWeights.weight rule.severity := by
  rw [sum_le_zero_iff, not_not]
  · simp only [List.mem_map, exists_exists_and_eq_and]
  · intro x member
    obtain ⟨rule, _, rfl⟩ := List.mem_map.mp member
    exact sound.weight_nonneg rule.severity

theorem Category.wellFormed_iff (sound : scoring.Sound) :
    category.WellFormed scoring ↔ category.RulesFit scoring := by
  have weighty := @weight_pos_iff _ category sound
  constructor
  · rintro ⟨some, weight, shown, distinct, rules⟩
    exact ⟨some, weighty.mpr weight, shown, distinct, rules⟩
  · rintro ⟨some, weight, shown, distinct, rules⟩
    exact ⟨some, weighty.mp weight, shown, distinct, rules⟩

end Weights

namespace Catalog

variable {catalog : Catalog Binary64}

theorem totalMaxPoints_eq_sum {α : Type} (catalog : Catalog α) :
    catalog.totalMaxPoints = (catalog.categories.map fun c => c.maxPoints.toNat).sum := by
  rw [List.sum_eq_foldl, List.foldl_map]
  rfl

theorem totalMaxPoints_ne_zero_iff {α : Type} {catalog : Catalog α} :
    catalog.totalMaxPoints ≠ 0 ↔ ∃ category ∈ catalog.categories, 0 < category.maxPoints := by
  rw [totalMaxPoints_eq_sum, ne_eq, List.sum_eq_zero_iff]
  simp [UInt32.lt_iff_toNat_lt, Nat.pos_iff_ne_zero]

theorem budgetProblems_eq_nil_iff {α : Type} {catalog : Catalog α} : catalog.budgetProblems = [] ↔
    catalog.categories ≠ [] ∧ ∃ category ∈ catalog.categories, 0 < category.maxPoints := by
  rw [← totalMaxPoints_ne_zero_iff]
  unfold budgetProblems
  by_cases none : catalog.categories = []
  · simp [none]
  · simp [none]

theorem problems_eq_nil_iff : catalog.problems = [] ↔ catalog.WellFormed := by
  have version : (if isBlankText catalog.version then [Problem.blankVersion] else []) =
      ([] : List (Problem Binary64)) ↔ isBlankText catalog.version = false := by simp
  simp only [problems, List.append_eq_nil_iff, version, budgetProblems_eq_nil_iff]
  constructor
  · rintro ⟨⟨⟨⟨shown, weights⟩, shares⟩, some, points⟩, categories⟩
    obtain ⟨sound, finite⟩ := Scoring.sound_iff.mp ⟨weights, shares⟩
    obtain ⟨each, _, distinct⟩ := categoryProblems_eq_nil_iff.mp categories
    exact ⟨shown, sound, finite, some, points, fun c member => (each c member).1, distinct,
      fun c member => (Category.wellFormed_iff sound).mpr (each c member).2⟩
  · rintro ⟨shown, sound, finite, some, points, idsShown, distinct, categories⟩
    obtain ⟨weights, shares⟩ := Scoring.sound_iff.mpr ⟨sound, finite⟩
    refine ⟨⟨⟨⟨shown, weights⟩, shares⟩, some, points⟩, categoryProblems_eq_nil_iff.mpr ?_⟩
    exact ⟨fun c member => ⟨idsShown c member, (Category.wellFormed_iff sound).mp (categories c member)⟩,
      by simp, distinct⟩

/-- Fewer categories than there are budgets cannot add up to more than 64 bits hold. -/
theorem totalMaxPoints_lt {α : Type} {catalog : Catalog α}
    (few : catalog.categories.length < 2 ^ 32) : catalog.totalMaxPoints < 2 ^ 64 := by
  have small : ∀ n ∈ catalog.categories.map fun c => c.maxPoints.toNat, n ≤ 2 ^ 32 := by
    intro n member
    obtain ⟨category, _, rfl⟩ := List.mem_map.mp member
    exact Nat.le_of_lt category.maxPoints.toNat_lt
  have most := List.sum_le_card_nsmul _ _ small
  rw [← totalMaxPoints_eq_sum, List.length_map, Nat.nsmul_eq_mul] at most
  calc catalog.totalMaxPoints ≤ catalog.categories.length * 2 ^ 32 := most
    _ < 2 ^ 32 * 2 ^ 32 := Nat.mul_lt_mul_of_pos_right few (by decide)

theorem standard_problems : (standard : Catalog Binary64).problems = [] := by
  have none : (standard : Catalog Binary64).problems.isEmpty = true := by decide +kernel
  exact List.isEmpty_iff.mp none

/-- The total that is compared with zero is exact, since it stays within 64 bits. -/
theorem accepted_iff_wellFormed (catalog : Catalog Binary64)
    (few : catalog.categories.length < 2 ^ 32) :
    (catalog.problems = [] ↔ catalog.WellFormed) ∧
      (¬ catalog.WellFormed → 0 < catalog.problems.length) ∧ catalog.totalMaxPoints < 2 ^ 64 := by
  refine ⟨problems_eq_nil_iff, fun malformed => ?_, totalMaxPoints_lt few⟩
  exact List.length_pos_iff.mpr fun accepted => malformed (problems_eq_nil_iff.mp accepted)

theorem standard_wellFormed :
    (standard : Catalog Binary64).categories.length < 2 ^ 32 ∧
      (standard : Catalog Binary64).WellFormed := by
  have few : (standard : Catalog Binary64).categories.length < 2 ^ 32 := by decide +kernel
  exact ⟨few, (accepted_iff_wellFormed standard few).1.mp standard_problems⟩

end Catalog

end PageHealth
