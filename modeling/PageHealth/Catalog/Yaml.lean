import PageHealth.Catalog.Document
import PageHealth.Yaml.Reader
import PageHealth.Yaml.Typed
import PageHealth.Yaml.Writer

namespace PageHealth

open Yaml (Node)

def Expected.toNode : Expected Binary64 → Node
  | .bool b => Node.ofBool b
  | .number n => Node.ofBinary64 n
  | .text s => Node.ofText s
  | .range least greatest => .sequence [Node.ofBinary64 least, Node.ofBinary64 greatest]

def Condition.toNode (condition : Condition Binary64) : Node :=
  .mapping
    [("field", Node.ofText condition.field), ("operator", Node.ofText condition.operator),
     ("value", condition.value.toNode)]

def optionalNode (key : String) : Option Node → List (String × Node)
  | some node => [(key, node)]
  | none => []

def Thresholds.toNode (thresholds : Thresholds Binary64) : Node :=
  .mapping
    (("pass", thresholds.pass.toNode) ::
      optionalNode "warning" (thresholds.warning.map Condition.toNode))

def Rule.toNode (rule : Rule Binary64) : Node :=
  .mapping
    ([("id", Node.ofText rule.id), ("severity", Node.ofText rule.severity.name),
      ("message", Node.ofText rule.message),
      ("recommendation", Node.ofText rule.recommendation)] ++
      optionalNode "checks" (rule.checks.map fun checks => .sequence (checks.map Condition.toNode)) ++
      optionalNode "thresholds" (rule.thresholds.map Thresholds.toNode))

def Category.toNode (category : Category Binary64) : Node :=
  .mapping
    [("id", Node.ofText category.id), ("name", Node.ofText category.name),
     ("maxPoints", Node.ofNat category.maxPoints.toNat),
     ("rules", .sequence (category.rules.map Rule.toNode))]

def SeverityWeights.toNode (weights : SeverityWeights Binary64) : Node :=
  .mapping (Severity.all.map fun s => (s.name, Node.ofBinary64 (weights.weight s)))

def StatusScores.toNode (scores : StatusScores Binary64) : Node :=
  .mapping (Status.all.map fun s => (s.name, Node.ofBinary64 (scores.share s)))

def Scoring.toNode (scoring : Scoring Binary64) : Node :=
  .mapping
    [("severityWeights", scoring.severityWeights.toNode),
     ("statusScores", scoring.statusScores.toNode)]

def Catalog.yamlPreface : String :=
  String.join
    ["# seo-health rule catalog\n",
     "#\n",
     "# severityWeights split each category's maxPoints between its rules.\n",
     "# statusScores is the share of a rule's points awarded per status.\n",
     "# Operators: equals, gt, gte, lt, lte, between [min, max], outside [min, max]\n",
     "\n"]

namespace Catalog

def toNode (catalog : Catalog Binary64) : Node :=
  .mapping
    [("version", Node.ofText catalog.version), ("engine", Node.ofText catalog.engine),
     ("scoring", catalog.scoring.toNode),
     ("categories", .sequence (catalog.categories.map Category.toNode))]

def toYaml (catalog : Catalog Binary64) : String := yamlPreface ++ catalog.toNode.write

def ofYaml (text : String) : Except Yaml.Fault (Catalog Binary64) := do
  Catalog.ofNode Yaml.dialect (← Node.ofChars text.toList)

end Catalog

end PageHealth
