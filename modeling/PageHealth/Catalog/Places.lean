import PageHealth.Catalog.Basic
import PageHealth.Number.Notation

namespace PageHealth

inductive Slot where
  | check (index : Nat)
  | pass
  | warning
  deriving DecidableEq

structure RulePlace where
  category : Nat
  rule : Nat
  deriving DecidableEq

structure ConditionPlace where
  rule : RulePlace
  slot : Slot
  deriving DecidableEq

def elementText (name : String) (index : Nat) : String := name ++ "[" ++ digitsText index ++ "]"

def categoryText (index : Nat) : String := elementText "categories" index

def RulePlace.text (place : RulePlace) : String :=
  categoryText place.category ++ "." ++ elementText "rules" place.rule

def Slot.text : Slot → String
  | .check index => elementText "checks" index
  | .pass => "thresholds.pass"
  | .warning => "thresholds.warning"

def ConditionPlace.text (place : ConditionPlace) : String :=
  place.rule.text ++ "." ++ place.slot.text

variable {α : Type}

def Thresholds.conditions (thresholds : Thresholds α) : List (Slot × Condition α) :=
  (.pass, thresholds.pass) :: thresholds.warning.toList.map fun c => (.warning, c)

def Rule.conditions (rule : Rule α) : List (Slot × Condition α) :=
  ((rule.checks.getD []).zipIdx.map fun (condition, k) => (.check k, condition)) ++
    (match rule.thresholds with
      | some thresholds => thresholds.conditions
      | none => [])

def Catalog.placedRules (catalog : Catalog α) : List (RulePlace × Rule α) :=
  catalog.categories.zipIdx.flatMap fun (category, i) =>
    category.rules.zipIdx.map fun (rule, j) => (⟨i, j⟩, rule)

def Catalog.conditions (catalog : Catalog α) : List (ConditionPlace × Condition α) :=
  catalog.placedRules.flatMap fun (place, rule) =>
    rule.conditions.map fun (slot, condition) => (⟨place, slot⟩, condition)

end PageHealth
