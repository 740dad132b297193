import PageHealth.Catalog.Operator

/-! Scoring a page: the facts decide each rule's status, the status decides which share of the
rule's points is earned, and the points are added up by category and overall. A category's points
are split between its rules in proportion to their weights. Every result follows the declaration
order of the catalog, category by category and rule by rule. -/
namespace PageHealth

variable {α : Type}

structure Outcome (α : Type) where
  id : String
  category : String
  severity : Severity
  status : Status
  maxPoints : α
  pointsEarned : α
  deriving DecidableEq

structure Recommendation (α : Type) where
  id : String
  severity : Severity
  category : String
  status : Status
  message : String
  recommendation : String
  pointsLost : α
  deriving DecidableEq

structure CategoryScore where
  id : String
  score : Nat
  maxScore : Nat
  percentage : Nat
  label : String
  deriving DecidableEq

structure Summary where
  passed : Nat
  warnings : Nat
  failed : Nat
  deriving DecidableEq

def Summary.ofStatuses (statuses : List Status) : Summary where
  passed := statuses.count .pass
  warnings := statuses.count .warning
  failed := statuses.count .fail

structure Evaluation (α : Type) where
  catalogVersion : String
  healthScore : Nat
  categoryScores : List CategoryScore
  recommendations : List (Recommendation α)
  summary : Summary
  outcomes : List (Outcome α)
  deriving DecidableEq

namespace Evaluation

def category? (evaluation : Evaluation α) (id : String) : Option CategoryScore :=
  evaluation.categoryScores.find? fun c => c.id = id

def outcome? (evaluation : Evaluation α) (category id : String) : Option (Outcome α) :=
  evaluation.outcomes.find? fun o => o.category = category && o.id = id

end Evaluation

structure CategoryResult (α : Type) where
  score : CategoryScore
  points : α
  outcomes : List (Outcome α)
  recommendations : List (Recommendation α)

variable [Scalar α]

/-- Thresholds decide before checks do. A rule without either fails, and so does one whose list of
checks is empty. -/
def Rule.status (rule : Rule α) (facts : Facts α) : Status :=
  match rule.thresholds, rule.checks with
  | some thresholds, _ =>
    if thresholds.pass.holds facts then .pass
    else if thresholds.warning.any fun c => c.holds facts then .warning
    else .fail
  | none, some checks =>
    if !checks.isEmpty && checks.all fun c => c.holds facts then .pass else .fail
  | none, none => .fail

/-- The weight of a rule; weights that are not positive count as zero. -/
def Rule.weight (rule : Rule α) (scoring : Scoring α) : α :=
  Scalar.positivePart (scoring.severityWeights.weight rule.severity)

def Category.weight (category : Category α) (scoring : Scoring α) : α :=
  Scalar.sum (category.rules.map fun rule => rule.weight scoring)

def pointsFor (weight total : α) (maxPoints : UInt32) : α :=
  if Scalar.less (Scalar.ofNat 0) total then weight / total * Scalar.ofNat maxPoints.toNat
  else Scalar.ofNat 0

def wholePoints (points : α) : Nat := min (Scalar.nearestNat points) 4294967295

def percentage (part whole : α) : Nat := wholePoints (part / whole * Scalar.ofNat 100)

def Category.outcome (category : Category α) (scoring : Scoring α) (total : α) (facts : Facts α)
    (rule : Rule α) : Outcome α :=
  let status := rule.status facts
  let maxPoints := pointsFor (rule.weight scoring) total category.maxPoints
  { id := rule.id
    category := category.id
    severity := rule.severity
    status := status
    maxPoints := maxPoints
    pointsEarned := maxPoints * Scalar.clampUnit (scoring.statusScores.share status) }

def Rule.recommend? (rule : Rule α) (outcome : Outcome α) : Option (Recommendation α) :=
  if outcome.status = .pass then none
  else some
    { id := rule.id
      severity := rule.severity
      category := outcome.category
      status := outcome.status
      message := rule.message
      recommendation := rule.recommendation
      pointsLost := Scalar.positivePart (outcome.maxPoints - outcome.pointsEarned) }

def Category.evaluate (category : Category α) (scoring : Scoring α) (facts : Facts α) :
    CategoryResult α :=
  let total := category.weight scoring
  let outcomes := category.rules.map (category.outcome scoring total facts)
  let points := Scalar.sum (outcomes.map Outcome.pointsEarned)
  { score :=
      { id := category.id
        score := wholePoints points
        maxScore := category.maxPoints.toNat
        percentage :=
          if category.maxPoints = 0 then 0
          else PageHealth.percentage points (Scalar.ofNat category.maxPoints.toNat)
        label := category.name }
    points := points
    outcomes := outcomes
    recommendations := (category.rules.zip outcomes).filterMap fun (rule, outcome) =>
      rule.recommend? outcome }

def healthScore (points maxPoints : List α) : Nat :=
  let total := Scalar.sum maxPoints
  if Scalar.less (Scalar.ofNat 0) total then min (percentage (Scalar.sum points) total) 100 else 0

def Catalog.evaluate (catalog : Catalog α) (facts : Facts α) : Evaluation α :=
  let results := catalog.categories.map fun c => c.evaluate catalog.scoring facts
  let outcomes := results.flatMap CategoryResult.outcomes
  { catalogVersion := catalog.version
    healthScore :=
      healthScore (results.map CategoryResult.points)
        (catalog.categories.map fun c => Scalar.ofNat c.maxPoints.toNat)
    categoryScores := results.map CategoryResult.score
    recommendations := results.flatMap CategoryResult.recommendations
    summary := Summary.ofStatuses (outcomes.map Outcome.status)
    outcomes := outcomes }

end PageHealth
