import PageHealth.Catalog.Places
import PageHealth.Text

/-! The problems that make a catalog unusable, listed in the order of the document. One place does not
hide the problems of another; but what stands in the modes of a rule that has both is not looked at. -/
namespace PageHealth

inductive Problem (α : Type) where
  | blankVersion
  | badWeight (severity : Severity) (got : α)
  | badShare (status : Status) (got : α)
  | sharesInverted (better worse : Status) (betterShare worseShare : α)
  | noCategories
  | noPoints
  | blankCategoryId (category : Nat)
  | repeatedCategoryId (category : Nat) (id : String)
  | noRules (category : Nat) (id : String)
  | noWeight (category : Nat) (id : String)
  | blankRuleId (place : RulePlace)
  | repeatedRuleId (place : RulePlace) (id category : String)
  | noMode (place : RulePlace) (id : String)
  | bothModes (place : RulePlace) (id : String)
  | noChecks (place : RulePlace)
  | blankField (place : ConditionPlace)
  | emptySegment (place : ConditionPlace) (field : String)

def Problem.message : Problem Binary64 → String
  | blankVersion => "version: must not be empty"
  | badWeight severity got =>
    "scoring.severityWeights." ++ severity.name ++ ": must be a non-negative number, got " ++
      messageNumber.write got
  | badShare status got =>
    "scoring.statusScores." ++ status.name ++ ": must be between 0.0 and 1.0, got " ++
      messageNumber.write got
  | sharesInverted better worse betterShare worseShare =>
    "scoring.statusScores: " ++ better.name ++ " (" ++ messageNumber.write betterShare ++
      ") must not be lower than " ++ worse.name ++ " (" ++ messageNumber.write worseShare ++ ")"
  | noCategories => "categories: at least one category is required"
  | noPoints => "categories: total maxPoints across all categories must be greater than 0"
  | blankCategoryId category => categoryText category ++ ".id: must not be empty"
  | repeatedCategoryId category id =>
    categoryText category ++ ".id: duplicate category id '" ++ id ++ "'"
  | noRules category id => categoryText category ++ ".rules: category '" ++ id ++ "' has no rules"
  | noWeight category id =>
    categoryText category ++ ": severity weights of the rules in '" ++ id ++
      "' sum to zero, points cannot be distributed"
  | blankRuleId place => place.text ++ ".id: must not be empty"
  | repeatedRuleId place id category =>
    place.text ++ ".id: duplicate rule id '" ++ id ++ "' in category '" ++ category ++ "'"
  | noMode place id =>
    place.text ++ ": rule '" ++ id ++ "' must declare either checks or thresholds"
  | bothModes place id =>
    place.text ++ ": rule '" ++ id ++ "' declares both checks and thresholds, pick one"
  | noChecks place => place.text ++ ".checks: must contain at least one condition"
  | blankField place => place.text ++ ".field: must not be empty"
  | emptySegment place field =>
    place.text ++ ".field: invalid path '" ++ field ++ "' - empty segment"

variable {α : Type}

def Condition.problems (place : ConditionPlace) (condition : Condition α) : List (Problem α) :=
  if isBlankText condition.field then [.blankField place]
  else if hasEmptySegment condition.field then [.emptySegment place condition.field]
  else []

/-- A rule has exactly one mode; the conditions of a rule with both are not looked at. -/
def Rule.modeProblems (place : RulePlace) (rule : Rule α) : List (Problem α) :=
  match rule.checks, rule.thresholds with
  | none, none => [.noMode place rule.id]
  | some _, some _ => [.bothModes place rule.id]
  | some [], none => [.noChecks place]
  | _, _ => rule.conditions.flatMap fun (slot, condition) => condition.problems ⟨place, slot⟩

def ruleProblems (category : Nat) (categoryId : String) :
    Nat → List String → List (Rule α) → List (Problem α)
  | _, _, [] => []
  | index, earlier, rule :: rest =>
    let place : RulePlace := ⟨category, index⟩
    let idProblems :=
      if isBlankText rule.id then [.blankRuleId place]
      else if earlier.contains rule.id then [.repeatedRuleId place rule.id categoryId]
      else []
    idProblems ++ rule.modeProblems place ++
      ruleProblems category categoryId (index + 1) (rule.id :: earlier) rest

variable [Scalar α]

/-- A category without rules has no other problems with its rules. -/
def Category.rulesProblems (scoring : Scoring α) (index : Nat) (category : Category α) :
    List (Problem α) :=
  if category.rules.isEmpty then [.noRules index category.id]
  else
    let total := Scalar.sum (category.rules.map fun r => scoring.severityWeights.weight r.severity)
    (if Scalar.atMost total (Scalar.ofNat 0) then [.noWeight index category.id] else []) ++
      ruleProblems index category.id 0 [] category.rules

def categoryProblems (scoring : Scoring α) :
    Nat → List String → List (Category α) → List (Problem α)
  | _, _, [] => []
  | index, earlier, category :: rest =>
    let idProblems :=
      if isBlankText category.id then [.blankCategoryId index]
      else if earlier.contains category.id then [.repeatedCategoryId index category.id]
      else []
    idProblems ++ category.rulesProblems scoring index ++
      categoryProblems scoring (index + 1) (category.id :: earlier) rest

def SeverityWeights.problems (weights : SeverityWeights α) : List (Problem α) :=
  Severity.all.filterMap fun severity =>
    let weight := weights.weight severity
    if !Scalar.isFinite weight || Scalar.less weight (Scalar.ofNat 0) then
      some (.badWeight severity weight)
    else none

def StatusScores.problems (scores : StatusScores α) : List (Problem α) :=
  let outOfRange := Status.all.filterMap fun status =>
    let share := scores.share status
    if Scalar.isFinite share && Scalar.atMost (Scalar.ofNat 0) share &&
        Scalar.atMost share (Scalar.ofNat 1) then none
    else some (.badShare status share)
  let inverted (better worse : Status) : List (Problem α) :=
    if Scalar.less (scores.share better) (scores.share worse) then
      [.sharesInverted better worse (scores.share better) (scores.share worse)]
    else []
  outOfRange ++ inverted .pass .warning ++ inverted .warning .fail

namespace Catalog

def budgetProblems (catalog : Catalog α) : List (Problem α) :=
  if catalog.categories.isEmpty then [.noCategories]
  else if catalog.totalMaxPoints = 0 then [.noPoints]
  else []

def problems (catalog : Catalog α) : List (Problem α) :=
  (if isBlankText catalog.version then [.blankVersion] else []) ++
    catalog.scoring.severityWeights.problems ++ catalog.scoring.statusScores.problems ++
    catalog.budgetProblems ++ categoryProblems catalog.scoring 0 [] catalog.categories

end Catalog

end PageHealth
