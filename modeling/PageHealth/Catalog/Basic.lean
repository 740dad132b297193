import PageHealth.Number.Scalar

/-! The rule catalog: categories that share out points between rules, rules that test conditions,
and the tables that turn severities and statuses into points. Generic in the number type. -/
namespace PageHealth

inductive Severity where
  | high
  | medium
  | low
  deriving DecidableEq

namespace Severity

def all : List Severity := [high, medium, low]

def name : Severity → String
  | high => "HIGH"
  | medium => "MEDIUM"
  | low => "LOW"

def ofName? (name : String) : Option Severity := all.find? fun s => s.name = name

end Severity

inductive Status where
  | pass
  | warning
  | fail
  deriving DecidableEq

namespace Status

def all : List Status := [pass, warning, fail]

def name : Status → String
  | pass => "PASS"
  | warning => "WARNING"
  | fail => "FAIL"

def grade : Status → Nat
  | pass => 2
  | warning => 1
  | fail => 0

end Status

inductive Expected (α : Type) where
  | bool (value : Bool)
  | number (value : α)
  | text (value : String)
  | range (least greatest : α)
  deriving DecidableEq

namespace Expected

variable {α : Type}

def kind : Expected α → String
  | bool _ => "boolean"
  | number _ => "number"
  | text _ => "string"
  | range _ _ => "range"

end Expected

/-- The operator stays text, so that a name nobody knows survives reading and can be reported. -/
structure Condition (α : Type) where
  field : String
  operator : String
  value : Expected α
  deriving DecidableEq

structure Thresholds (α : Type) where
  pass : Condition α
  warning : Option (Condition α)
  deriving DecidableEq

/-- A rule is meant to have either checks, which must all hold, or thresholds. -/
structure Rule (α : Type) where
  id : String
  severity : Severity
  message : String
  recommendation : String
  checks : Option (List (Condition α))
  thresholds : Option (Thresholds α)
  deriving DecidableEq

structure Category (α : Type) where
  id : String
  name : String
  maxPoints : UInt32
  rules : List (Rule α)
  deriving DecidableEq

structure SeverityWeights (α : Type) where
  high : α
  medium : α
  low : α
  deriving DecidableEq

structure StatusScores (α : Type) where
  pass : α
  warning : α
  fail : α
  deriving DecidableEq

structure Scoring (α : Type) where
  severityWeights : SeverityWeights α
  statusScores : StatusScores α
  deriving DecidableEq

structure Catalog (α : Type) where
  version : String
  engine : String
  scoring : Scoring α
  categories : List (Category α)
  deriving DecidableEq

section Tables

variable {α : Type}

def SeverityWeights.weight (weights : SeverityWeights α) : Severity → α
  | .high => weights.high
  | .medium => weights.medium
  | .low => weights.low

def StatusScores.share (scores : StatusScores α) : Status → α
  | .pass => scores.pass
  | .warning => scores.warning
  | .fail => scores.fail

def SeverityWeights.standard [Scalar α] : SeverityWeights α where
  high := Scalar.ofNat 3
  medium := Scalar.ofNat 2
  low := Scalar.ofNat 1

def StatusScores.standard [Scalar α] : StatusScores α where
  pass := Scalar.ofNat 1
  warning := Scalar.ofNat 1 / Scalar.ofNat 2
  fail := Scalar.ofNat 0

def Scoring.standard [Scalar α] : Scoring α where
  severityWeights := SeverityWeights.standard
  statusScores := StatusScores.standard

end Tables

namespace Catalog

variable {α : Type}

def totalMaxPoints (catalog : Catalog α) : Nat :=
  catalog.categories.foldl (fun n c => n + c.maxPoints.toNat) 0

def ruleCount (catalog : Catalog α) : Nat :=
  catalog.categories.foldl (fun n c => n + c.rules.length) 0

def category? (catalog : Catalog α) (id : String) : Option (Category α) :=
  catalog.categories.find? fun c => c.id = id

end Catalog

end PageHealth
