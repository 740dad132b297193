import PageHealth.Json.Writer
import PageHealth.Scoring

namespace PageHealth

open Json (Value)

structure Report where
  source : String
  evaluatedAt : String
  evaluation : Evaluation Binary64

def countValue (n : Nat) : Value := .number (.integer n)

def CategoryScore.toMember (score : CategoryScore) : String × Value :=
  (score.id,
    .object
      [("score", countValue score.score), ("maxScore", countValue score.maxScore),
       ("percentage", countValue score.percentage), ("label", .text score.label)] none)

def Recommendation.toValue (rec : Recommendation Binary64) : Value :=
  .object
    [("id", .text rec.id), ("severity", .text rec.severity.name), ("category", .text rec.category),
     ("status", .text rec.status.name), ("message", .text rec.message),
     ("recommendation", .text rec.recommendation),
     ("pointsLost", .number (.double rec.pointsLost))] none

def Outcome.toValue (outcome : Outcome Binary64) : Value :=
  .object
    [("id", .text outcome.id), ("category", .text outcome.category),
     ("severity", .text outcome.severity.name), ("status", .text outcome.status.name),
     ("maxPoints", .number (.double outcome.maxPoints)),
     ("pointsEarned", .number (.double outcome.pointsEarned))] none

def Summary.toValue (summary : Summary) : Value :=
  .object
    [("passed", countValue summary.passed), ("warnings", countValue summary.warnings),
     ("failed", countValue summary.failed)] none

def Evaluation.toMembers (evaluation : Evaluation Binary64) : List (String × Value) :=
  [("catalogVersion", .text evaluation.catalogVersion),
   ("healthScore", countValue evaluation.healthScore),
   ("categoryScores", .object (evaluation.categoryScores.map CategoryScore.toMember) none),
   ("recommendations", .array (evaluation.recommendations.map Recommendation.toValue) none),
   ("summary", evaluation.summary.toValue),
   ("rules", .array (evaluation.outcomes.map Outcome.toValue) none)]

def Report.toValue (report : Report) : Value :=
  .object
    (("source", .text report.source) :: ("evaluatedAt", .text report.evaluatedAt) ::
      report.evaluation.toMembers) none

def Report.json (report : Report) : String := report.toValue.pretty

end PageHealth
