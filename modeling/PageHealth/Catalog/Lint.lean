import PageHealth.Catalog.Operator
import PageHealth.Catalog.Places
import PageHealth.Text

/-! What is suspicious about a catalog without making it unusable: a version that is not a semantic
version, and conditions that can never hold. -/
namespace PageHealth

inductive Suspicion (α : Type) where
  | oddVersion (version : String)
  | unknownOperator (place : ConditionPlace) (name : String)
  | unusableValue (place : ConditionPlace) (operator : Operator) (value : Expected α)
  | emptyRange (place : ConditionPlace) (least greatest : α)

def Operator.wanted : Operator → String
  | .equals => "a boolean, number or string"
  | .between | .outside => "a [min, max] range"
  | _ => "a number"

def neverMatches : String := " - condition will never match"

def Suspicion.message : Suspicion Binary64 → String
  | oddVersion version => "version: '" ++ version ++ "' is not a semantic version (e.g. 1.2.0)"
  | unknownOperator place name =>
    place.text ++ ".operator: " ++ Operator.unknownMessage name ++ neverMatches
  | unusableValue place operator value =>
    place.text ++ ".value: '" ++ operator.name ++ "' expects " ++ operator.wanted ++ ", got " ++
      value.kind ++ neverMatches
  | emptyRange place least greatest =>
    place.text ++ ".value: range minimum " ++ messageNumber.write least ++
      " is greater than maximum " ++ messageNumber.write greatest

variable {α : Type} [Scalar α]

def Expected.rangeSuspicions (place : ConditionPlace) : Expected α → List (Suspicion α)
  | .range least greatest =>
    if Scalar.less greatest least then [.emptyRange place least greatest] else []
  | _ => []

def Condition.suspicions (place : ConditionPlace) (condition : Condition α) :
    List (Suspicion α) :=
  match Operator.ofName? condition.operator with
  | none => [.unknownOperator place condition.operator]
  | some operator =>
    (if operator.accepts condition.value then []
      else [.unusableValue place operator condition.value]) ++
      condition.value.rangeSuspicions place

def Catalog.suspicions (catalog : Catalog α) : List (Suspicion α) :=
  (if isSemanticVersion catalog.version then [] else [.oddVersion catalog.version]) ++
    catalog.conditions.flatMap fun (place, condition) => condition.suspicions place

end PageHealth
