import PageHealth.Proofs.Scoring.Locality

/-! Scoring in one pass. A tally goes through the rules of a catalog once, adds to its lists and keeps
running totals. What it adds for a category is the category's own result whatever was gathered before:
no total flows back. So two groups of categories are scored as each would be alone, one after the
other. -/
namespace PageHealth

variable {α : Type}

instance : Add Summary :=
  ⟨fun a b => ⟨a.passed + b.passed, a.warnings + b.warnings, a.failed + b.failed⟩⟩

namespace Summary

def record (summary : Summary) : Status → Summary
  | .pass => { summary with passed := summary.passed + 1 }
  | .warning => { summary with warnings := summary.warnings + 1 }
  | .fail => { summary with failed := summary.failed + 1 }

theorem add_assoc (a b c : Summary) : a + b + c = a + (b + c) := by
  change mk _ _ _ = mk _ _ _
  rw [mk.injEq]
  exact ⟨Nat.add_assoc _ _ _, Nat.add_assoc _ _ _, Nat.add_assoc _ _ _⟩

theorem zero_add (a : Summary) : ⟨0, 0, 0⟩ + a = a := by
  change mk _ _ _ = a
  simp only [Nat.zero_add]

theorem ofStatuses_append (front back : List Status) :
    ofStatuses (front ++ back) = ofStatuses front + ofStatuses back := by
  simp only [ofStatuses, List.count_append]
  rfl

theorem record_add_ofStatuses (summary : Summary) (status : Status) (statuses : List Status) :
    summary.record status + ofStatuses statuses = summary + ofStatuses (status :: statuses) := by
  have one : summary.record status = summary + ofStatuses [status] := by cases status <;> rfl
  rw [one, add_assoc, ← ofStatuses_append, List.singleton_append]

end Summary

/-- What has been gathered on the way through a catalog. -/
structure Tally (α : Type) where
  categoryScores : List CategoryScore
  recommendations : List (Recommendation α)
  outcomes : List (Outcome α)
  summary : Summary
  earned : α
  points : α
  maxPoints : α

section Pass

variable [Scalar α]

def Category.scoreOf (category : Category α) (points : α) : CategoryScore where
  id := category.id
  score := wholePoints points
  maxScore := category.maxPoints.toNat
  percentage :=
    if category.maxPoints = 0 then 0
    else PageHealth.percentage points (Scalar.ofNat category.maxPoints.toNat)
  label := category.name

namespace Tally

def start : Tally α where
  categoryScores := []
  recommendations := []
  outcomes := []
  summary := ⟨0, 0, 0⟩
  earned := Scalar.ofNat 0
  points := Scalar.ofNat 0
  maxPoints := Scalar.ofNat 0

def addRule (outcomeOf : Rule α → Outcome α) (tally : Tally α) (rule : Rule α) : Tally α :=
  let outcome := outcomeOf rule
  { tally with
    recommendations := tally.recommendations ++ (rule.recommend? outcome).toList
    outcomes := tally.outcomes ++ [outcome]
    summary := tally.summary.record outcome.status
    earned := tally.earned + outcome.pointsEarned }

def addCategory (scoring : Scoring α) (facts : Facts α) (tally : Tally α) (category : Category α) :
    Tally α :=
  let outcomeOf := category.outcome scoring (category.weight scoring) facts
  let within := category.rules.foldl (addRule outcomeOf) { tally with earned := Scalar.ofNat 0 }
  { within with
    categoryScores := within.categoryScores ++ [category.scoreOf within.earned]
    points := within.points + within.earned
    maxPoints := within.maxPoints + Scalar.ofNat category.maxPoints.toNat }

def run (scoring : Scoring α) (facts : Facts α) (tally : Tally α) (categories : List (Category α)) :
    Tally α :=
  categories.foldl (addCategory scoring facts) tally

def finish (version : String) (tally : Tally α) : Evaluation α where
  catalogVersion := version
  healthScore :=
    if Scalar.less (Scalar.ofNat 0) tally.maxPoints then
      min (percentage tally.points tally.maxPoints) 100
    else 0
  categoryScores := tally.categoryScores
  recommendations := tally.recommendations
  summary := tally.summary
  outcomes := tally.outcomes

variable {scoring : Scoring α} {facts : Facts α}

section Steps

theorem foldl_addRule (outcomeOf : Rule α → Outcome α) (rules : List (Rule α)) (tally : Tally α) :
    rules.foldl (addRule outcomeOf) tally =
      { tally with
        recommendations := tally.recommendations ++ rules.filterMap fun rule =>
          rule.recommend? (outcomeOf rule)
        outcomes := tally.outcomes ++ rules.map outcomeOf
        summary := tally.summary + Summary.ofStatuses ((rules.map outcomeOf).map Outcome.status)
        earned := ((rules.map outcomeOf).map Outcome.pointsEarned).foldl (· + ·) tally.earned } := by
  induction rules generalizing tally with
  | nil =>
    simp only [List.foldl_nil, List.filterMap_nil, List.map_nil, List.append_nil]
    rfl
  | cons rule rest ih =>
    rw [List.foldl_cons, ih, List.filterMap_cons]
    simp only [addRule, List.map_cons, List.foldl_cons, Summary.record_add_ofStatuses,
      List.append_assoc, List.singleton_append]
    cases rule.recommend? (outcomeOf rule) <;> rfl

def gather (tally : Tally α) (maxPoints : UInt32) (result : CategoryResult α) : Tally α where
  categoryScores := tally.categoryScores ++ [result.score]
  recommendations := tally.recommendations ++ result.recommendations
  outcomes := tally.outcomes ++ result.outcomes
  summary := tally.summary + Summary.ofStatuses (result.outcomes.map Outcome.status)
  earned := result.points
  points := tally.points + result.points
  maxPoints := tally.maxPoints + Scalar.ofNat maxPoints.toNat

/-- What is added for a category is its own result, whatever the tally has gathered before. -/
theorem addCategory_eq_gather (tally : Tally α) (category : Category α) :
    tally.addCategory scoring facts category =
      tally.gather category.maxPoints (category.evaluate scoring facts) := by
  simp only [addCategory, foldl_addRule, gather, category.evaluate_recommendations]
  rfl

end Steps

section Runs

variable {tally : Tally α} {front back categories : List (Category α)}

structure IsAfter (tally : Tally α) (results : List (CategoryResult α)) (maxPoints : List α)
    (after : Tally α) : Prop where
  categoryScores : after.categoryScores = tally.categoryScores ++ results.map CategoryResult.score
  recommendations : after.recommendations =
    tally.recommendations ++ results.flatMap CategoryResult.recommendations
  outcomes : after.outcomes = tally.outcomes ++ results.flatMap CategoryResult.outcomes
  summary : after.summary = tally.summary +
    Summary.ofStatuses ((results.flatMap CategoryResult.outcomes).map Outcome.status)
  points : after.points = (results.map CategoryResult.points).foldl (· + ·) tally.points
  maxPoints : after.maxPoints = maxPoints.foldl (· + ·) tally.maxPoints

theorem run_isAfter (tally : Tally α) (categories : List (Category α)) :
    tally.IsAfter (categories.map fun c => c.evaluate scoring facts)
      (categories.map fun c => Scalar.ofNat c.maxPoints.toNat) (tally.run scoring facts categories) := by
  induction categories generalizing tally with
  | nil =>
    constructor <;> simp [run]
    rfl
  | cons category rest ih =>
    have step : tally.run scoring facts (category :: rest) =
        (tally.gather category.maxPoints (category.evaluate scoring facts)).run scoring facts rest := by
      rw [run, List.foldl_cons, addCategory_eq_gather, run]
    have onward := ih (tally.gather category.maxPoints (category.evaluate scoring facts))
    rw [step]
    constructor
    · rw [onward.categoryScores, gather, List.append_assoc]
      rfl
    · rw [onward.recommendations, gather, List.append_assoc]
      rfl
    · rw [onward.outcomes, gather, List.append_assoc]
      rfl
    · rw [onward.summary, gather, Summary.add_assoc, ← Summary.ofStatuses_append, ← List.map_append]
      rfl
    · exact onward.points
    · exact onward.maxPoints

theorem run_append : tally.run scoring facts (front ++ back) =
    (tally.run scoring facts front).run scoring facts back := List.foldl_append

end Runs

end Tally

/-- One pass over the rules gives the evaluation. -/
theorem Catalog.evaluate_eq_finish (catalog : Catalog α) (facts : Facts α) :
    catalog.evaluate facts =
      (Tally.start.run catalog.scoring facts catalog.categories).finish catalog.version := by
  have pass : Tally.start.IsAfter _ _ (Tally.start.run catalog.scoring facts catalog.categories) :=
    Tally.run_isAfter _ _
  unfold Tally.finish
  rw [pass.categoryScores, pass.recommendations, pass.outcomes, pass.summary, pass.points,
    pass.maxPoints]
  simp only [Tally.start, List.nil_append, Summary.zero_add]
  rfl

end Pass

section Groups

variable [Scalar α]

def Catalog.withCategories (catalog : Catalog α) (categories : List (Category α)) : Catalog α :=
  { catalog with categories := categories }

/-- An evaluation that says of two groups of categories, one after the other, what two evaluations say
of each. The health score is of all categories together and has no part in it. -/
structure Evaluation.Joins (front back whole : Evaluation α) : Prop where
  categoryScores : whole.categoryScores = front.categoryScores ++ back.categoryScores
  outcomes : whole.outcomes = front.outcomes ++ back.outcomes
  recommendations : whole.recommendations = front.recommendations ++ back.recommendations
  summary : whole.summary = front.summary + back.summary

def Evaluation.partAt (catalog : Catalog α) (evaluation : Evaluation α) (index : Nat) :
    Option CategoryScore × Option (List (Outcome α)) × Option (List (Recommendation α)) :=
  (evaluation.categoryScores[index]?, (evaluation.outcomesByCategory catalog)[index]?,
    (evaluation.recommendationsByCategory catalog)[index]?)

theorem Catalog.partAt_evaluate (catalog : Catalog α) (facts : Facts α) (index : Nat) :
    (catalog.evaluate facts).partAt catalog index =
      let result := catalog.categories[index]?.map fun c => c.evaluate catalog.scoring facts
      (result.map CategoryResult.score, result.map CategoryResult.outcomes,
        result.map CategoryResult.recommendations) := by
  unfold Evaluation.partAt
  rw [catalog.outcomesByCategory_eq, catalog.recommendationsByCategory_eq]
  simp only [catalog.evaluate_categoryScores, List.getElem?_map, Option.map_map, Function.comp_def]

/-- Two groups of categories are scored like one after the other, and a category in the midst of others
like one that is alone. -/
theorem Catalog.evaluate_append (catalog : Catalog α) (facts : Facts α)
    (front back : List (Category α)) :
    ((catalog.withCategories front).evaluate facts).Joins
        ((catalog.withCategories back).evaluate facts)
        ((catalog.withCategories (front ++ back)).evaluate facts) ∧
      ∀ category,
        ((catalog.withCategories (front ++ category :: back)).evaluate facts).partAt
            (catalog.withCategories (front ++ category :: back)) front.length =
          ((catalog.withCategories [category]).evaluate facts).partAt
            (catalog.withCategories [category]) 0 := by
  constructor
  · rw [evaluate_eq_finish, evaluate_eq_finish, evaluate_eq_finish]
    simp only [withCategories, Tally.run_append]
    -- The pass goes on with the second group from where the first left it, or it begins there.
    let first := Tally.start.run catalog.scoring facts front
    have onward : first.IsAfter _ _ (first.run catalog.scoring facts back) := Tally.run_isAfter _ _
    have anew : Tally.start.IsAfter _ _ (Tally.start.run catalog.scoring facts back) :=
      Tally.run_isAfter _ _
    constructor
    · exact onward.categoryScores.trans (congrArg _ anew.categoryScores.symm)
    · exact onward.outcomes.trans (congrArg _ anew.outcomes.symm)
    · exact onward.recommendations.trans (congrArg _ anew.recommendations.symm)
    · refine onward.summary.trans (congrArg _ ?_)
      exact (anew.summary.trans (Summary.zero_add _)).symm
  · intro category
    rw [partAt_evaluate, partAt_evaluate]
    simp [withCategories]

/-- The health score is another matter: it is lower for what the other categories lack. -/
example :
    let category (field : String) : Category Binary64 :=
      ⟨field, field, 50, [⟨field, .high, "", "", some [⟨field, "equals", .bool true⟩], none⟩]⟩
    let catalog := (Catalog.standard : Catalog Binary64)
    let page : Facts Binary64 := .mk [("title", .bool true)]
    ((catalog.withCategories [category "title", category "speed"]).evaluate page).healthScore = 50 ∧
      ((catalog.withCategories [category "title"]).evaluate page).healthScore = 100 := by
  decide +kernel

end Groups

end PageHealth
