import PageHealth.Catalog.Document
import PageHealth.Json.Typed

namespace PageHealth

open Json (Value ReadError)

def doubleValue (x : Binary64) : Value := .number (.double x)

def Expected.toValue : Expected Binary64 → Value
  | .bool b => .bool b
  | .number n => doubleValue n
  | .text s => .text s
  | .range least greatest => .array [doubleValue least, doubleValue greatest] none

def Condition.toValue (condition : Condition Binary64) : Value :=
  .object
    [("field", .text condition.field), ("operator", .text condition.operator),
     ("value", condition.value.toValue)] none

def optionalMember (key : String) : Option Value → List (String × Value)
  | some value => [(key, value)]
  | none => []

def Thresholds.toValue (thresholds : Thresholds Binary64) : Value :=
  .object
    (("pass", thresholds.pass.toValue) ::
      optionalMember "warning" (thresholds.warning.map Condition.toValue)) none

def Rule.toValue (rule : Rule Binary64) : Value :=
  .object
    ([("id", .text rule.id), ("severity", .text rule.severity.name),
      ("message", .text rule.message), ("recommendation", .text rule.recommendation)] ++
      optionalMember "checks" (rule.checks.map fun checks => .array (checks.map Condition.toValue) none) ++
      optionalMember "thresholds" (rule.thresholds.map Thresholds.toValue)) none

def Category.toValue (category : Category Binary64) : Value :=
  .object
    [("id", .text category.id), ("name", .text category.name),
     ("maxPoints", .number (.integer category.maxPoints.toNat)),
     ("rules", .array (category.rules.map Rule.toValue) none)] none

def SeverityWeights.toValue (weights : SeverityWeights Binary64) : Value :=
  .object (Severity.all.map fun s => (s.name, doubleValue (weights.weight s))) none

def StatusScores.toValue (scores : StatusScores Binary64) : Value :=
  .object (Status.all.map fun s => (s.name, doubleValue (scores.share s))) none

def Scoring.toValue (scoring : Scoring Binary64) : Value :=
  .object
    [("severityWeights", scoring.severityWeights.toValue),
     ("statusScores", scoring.statusScores.toValue)] none

namespace Catalog

def toValue (catalog : Catalog Binary64) : Value :=
  .object
    [("version", .text catalog.version), ("engine", .text catalog.engine),
     ("scoring", catalog.scoring.toValue),
     ("categories", .array (catalog.categories.map Category.toValue) none)] none

def toJson (catalog : Catalog Binary64) : String := catalog.toValue.compact

def ofJson (text : String) : Except ReadError (Catalog Binary64) :=
  (Json.Document.ofText text).read (Catalog.ofNode (Json.dialect .text))

end Catalog

end PageHealth
