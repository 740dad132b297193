import Mathlib.Data.List.SplitLengths
import PageHealth.Proofs.Scoring.Conditions
import PageHealth.Proofs.Scoring.Results

namespace PageHealth

/-- The conditions of a category see the same on two pages. -/
def Catalog.ReadsAlike (catalog : Catalog Binary64) (index : Nat) (f g : Facts Binary64) : Prop :=
  ∀ placed ∈ catalog.conditions, placed.1.rule.category = index →
    f.reading? placed.2.field = g.reading? placed.2.field

instance (catalog : Catalog Binary64) (index : Nat) (f g : Facts Binary64) :
    Decidable (catalog.ReadsAlike index f g) := by
  unfold Catalog.ReadsAlike
  infer_instance

section Slices

variable {α : Type}

/-- The outcomes cut into one list a category. Ids may repeat, so it is places that tell the
categories apart. -/
def Evaluation.outcomesByCategory (catalog : Catalog α) (evaluation : Evaluation α) :
    List (List (Outcome α)) :=
  (catalog.categories.map fun category => category.rules.length).splitLengths evaluation.outcomes

def Evaluation.recommendationsByCategory (catalog : Catalog α) (evaluation : Evaluation α) :
    List (List (Recommendation α)) :=
  ((evaluation.outcomesByCategory catalog).map fun outcomes =>
    outcomes.countP fun outcome => outcome.status ≠ .pass).splitLengths evaluation.recommendations

structure Evaluation.SameAt (catalog : Catalog α) (index : Nat) (a b : Evaluation α) : Prop where
  score : a.categoryScores[index]? = b.categoryScores[index]?
  outcomes : (a.outcomesByCategory catalog)[index]? = (b.outcomesByCategory catalog)[index]?
  recommendations :
    (a.recommendationsByCategory catalog)[index]? = (b.recommendationsByCategory catalog)[index]?

theorem splitLengths_flatMap {β : Type} (items : List β) (part : β → List α) :
    (items.map fun item => (part item).length).splitLengths (items.flatMap part) = items.map part := by
  induction items with
  | nil => rfl
  | cons item rest ih => simp [ih]

variable [Scalar α] (catalog : Catalog α) (facts : Facts α)

theorem Rule.isSome_recommend? (rule : Rule α) (outcome : Outcome α) :
    (rule.recommend? outcome).isSome = decide (outcome.status ≠ .pass) := by
  unfold recommend?
  by_cases passed : outcome.status = .pass
  · rw [if_pos passed]
    simp [passed]
  · rw [if_neg passed]
    simp [passed]

theorem Category.length_outcomes (category : Category α) (scoring : Scoring α) :
    (category.evaluate scoring facts).outcomes.length = category.rules.length := List.length_map _

theorem Category.length_recommendations (category : Category α) (scoring : Scoring α) :
    (category.evaluate scoring facts).recommendations.length =
      (category.evaluate scoring facts).outcomes.countP fun outcome => outcome.status ≠ .pass := by
  rw [category.evaluate_recommendations, List.length_filterMap_eq_countP]
  simp only [Rule.isSome_recommend?, category.evaluate_outcomes, List.countP_map]
  rfl

theorem Catalog.outcomesByCategory_eq : (catalog.evaluate facts).outcomesByCategory catalog =
    catalog.categories.map fun category => (category.evaluate catalog.scoring facts).outcomes := by
  have cut := splitLengths_flatMap catalog.categories fun category =>
    (category.evaluate catalog.scoring facts).outcomes
  simp only [Category.length_outcomes] at cut
  rwa [← catalog.outcomes_eq_flatMap] at cut

theorem Catalog.recommendationsByCategory_eq :
    (catalog.evaluate facts).recommendationsByCategory catalog =
      catalog.categories.map fun category =>
        (category.evaluate catalog.scoring facts).recommendations := by
  have cut := splitLengths_flatMap catalog.categories fun category =>
    (category.evaluate catalog.scoring facts).recommendations
  simp only [Category.length_recommendations] at cut
  unfold Evaluation.recommendationsByCategory
  rw [catalog.outcomesByCategory_eq, List.map_map, catalog.recommendations_eq_flatMap]
  exact cut

end Slices

section Pages

variable {catalog : Catalog Binary64} {category : Category Binary64} {f g : Facts Binary64} {i : Nat}

theorem Category.evaluate_congr (scoring : Scoring Binary64)
    (same : ∀ rule ∈ category.rules, rule.status f = rule.status g) :
    category.evaluate scoring f = category.evaluate scoring g := by
  have outcomes : category.rules.map (category.outcome scoring (category.weight scoring) f) =
      category.rules.map (category.outcome scoring (category.weight scoring) g) := by
    apply List.map_congr_left
    intro rule member
    unfold outcome
    rw [same rule member]
  simp only [evaluate, outcomes]

theorem Catalog.ReadsAlike.evaluate_eq (alike : catalog.ReadsAlike i f g)
    (found : catalog.categories[i]? = some category) :
    category.evaluate catalog.scoring f = category.evaluate catalog.scoring g := by
  have conditions := (Catalog.forall_conditions_of_category
    (P := fun c => f.reading? c.field = g.reading? c.field) found).mp alike
  apply Category.evaluate_congr
  intro rule member
  apply Rule.status_congr
  intro placed within
  exact Condition.holds_congr (conditions rule member placed within)

theorem Catalog.ReadsAlike.sameAt (alike : catalog.ReadsAlike i f g) :
    (catalog.evaluate f).SameAt catalog i (catalog.evaluate g) := by
  -- Each part is read off the category's own result, in which the other categories have no share.
  have each {β : Type} (part : CategoryResult Binary64 → β) :
      (catalog.categories.map fun c => part (c.evaluate catalog.scoring f))[i]? =
        (catalog.categories.map fun c => part (c.evaluate catalog.scoring g))[i]? := by
    rw [List.getElem?_map, List.getElem?_map]
    cases found : catalog.categories[i]? with
    | none => rfl
    | some category => exact congrArg (fun result => some (part result)) (alike.evaluate_eq found)
  constructor
  · rw [catalog.evaluate_categoryScores, catalog.evaluate_categoryScores]
    exact each CategoryResult.score
  · rw [catalog.outcomesByCategory_eq, catalog.outcomesByCategory_eq]
    exact each CategoryResult.outcomes
  · rw [catalog.recommendationsByCategory_eq, catalog.recommendationsByCategory_eq]
    exact each CategoryResult.recommendations

/-- What looks alike to a category's conditions is scored alike there, and what looks alike to all of
them is scored alike altogether. -/
theorem Catalog.evaluate_local (catalog : Catalog Binary64) (f g : Facts Binary64) :
    (∀ i, catalog.ReadsAlike i f g → (catalog.evaluate f).SameAt catalog i (catalog.evaluate g)) ∧
      ((∀ i < catalog.categories.length, catalog.ReadsAlike i f g) →
        catalog.evaluate f = catalog.evaluate g) := by
  constructor
  · intro i alike
    exact alike.sameAt
  · intro alike
    have results : catalog.categories.map (fun c => c.evaluate catalog.scoring f) =
        catalog.categories.map (fun c => c.evaluate catalog.scoring g) := by
      apply List.map_congr_left
      intro category member
      obtain ⟨i, inside, rfl⟩ := List.getElem_of_mem member
      exact (alike i inside).evaluate_eq (List.getElem?_eq_getElem inside)
    simp only [evaluate, results]

/-- Security is measured on one of the pages only, which is no matter to the first category; and to no
category does it matter whether a null is there or nothing. -/
theorem Catalog.evaluate_local_standard :
    let blank : Facts Binary64 := Facts.empty.insert "robots.indexable" .null
    let secure : Facts Binary64 :=
      (Facts.empty.insert "robots.indexable" (.list [])).insert "security.https" (.bool true)
    (Catalog.standard.evaluate blank).SameAt Catalog.standard 0 (Catalog.standard.evaluate secure) ∧
      Catalog.standard.evaluate blank =
        Catalog.standard.evaluate (Facts.empty.insert "other" (.text "x")) :=
  ⟨(evaluate_local _ _ _).1 0 (by decide +kernel), (evaluate_local _ _ _).2 (by decide +kernel)⟩

end Pages

end PageHealth
