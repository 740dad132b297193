import PageHealth.Document.Dialect

/-! Reading a catalog from a document of any language. Undeclared and repeated keys are errors at
every level; the engine name, the scoring tables and a rule's two modes may be left out. -/
namespace PageHealth

variable {N ε : Type}

structure Condition.Draft where
  field : Option String := none
  operator : Option String := none
  value : Option (Expected Binary64) := none

def Condition.fields : List String := ["field", "operator", "value"]

def Condition.ofNode (d : Dialect N ε) : N → Except ε (Condition Binary64) :=
  d.readRecord "Condition" Condition.fields
    (fun key node (draft : Condition.Draft) =>
      match key with
      | "field" => do return { draft with field := some (← d.text node) }
      | "operator" => do return { draft with operator := some (← d.text node) }
      | _ => do return { draft with value := some (← d.expected node) })
    {}
    fun record draft => do
      let field ← record.require 0 "field" draft.field
      let operator ← record.require 1 "operator" draft.operator
      let value ← record.require 2 "value" draft.value
      return ⟨field, operator, value⟩

structure Thresholds.Draft where
  pass : Option (Condition Binary64) := none
  warning : Option (Condition Binary64) := none

def Thresholds.fields : List String := ["pass", "warning"]

def Thresholds.ofNode (d : Dialect N ε) : N → Except ε (Thresholds Binary64) :=
  d.readRecord "Thresholds" Thresholds.fields
    (fun key node (draft : Thresholds.Draft) =>
      match key with
      | "pass" => do return { draft with pass := some (← Condition.ofNode d node) }
      | _ => do return { draft with warning := ← d.optional (Condition.ofNode d) node })
    {}
    fun record draft => do
      let pass ← record.require 0 "pass" draft.pass
      return ⟨pass, draft.warning⟩

structure Rule.Draft where
  id : Option String := none
  severity : Option Severity := none
  message : Option String := none
  recommendation : Option String := none
  checks : Option (List (Condition Binary64)) := none
  thresholds : Option (Thresholds Binary64) := none

def Rule.fields : List String :=
  ["id", "severity", "message", "recommendation", "checks", "thresholds"]

def Rule.ofNode (d : Dialect N ε) : N → Except ε (Rule Binary64) :=
  d.readRecord "Rule" Rule.fields
    (fun key node (draft : Rule.Draft) =>
      match key with
      | "id" => do return { draft with id := some (← d.text node) }
      | "severity" => do return { draft with severity := some (← d.severity node) }
      | "message" => do return { draft with message := some (← d.text node) }
      | "recommendation" => do return { draft with recommendation := some (← d.text node) }
      | "checks" => do return { draft with checks := ← d.optional (d.list (Condition.ofNode d)) node }
      | _ => do return { draft with thresholds := ← d.optional (Thresholds.ofNode d) node })
    {}
    fun record draft => do
      let id ← record.require 0 "id" draft.id
      let severity ← record.require 1 "severity" draft.severity
      let message ← record.require 2 "message" draft.message
      let recommendation ← record.require 3 "recommendation" draft.recommendation
      return ⟨id, severity, message, recommendation, draft.checks, draft.thresholds⟩

structure Category.Draft where
  id : Option String := none
  name : Option String := none
  maxPoints : Option UInt32 := none
  rules : Option (List (Rule Binary64)) := none

def Category.fields : List String := ["id", "name", "maxPoints", "rules"]

def Category.ofNode (d : Dialect N ε) : N → Except ε (Category Binary64) :=
  d.readRecord "Category" Category.fields
    (fun key node (draft : Category.Draft) =>
      match key with
      | "id" => do return { draft with id := some (← d.text node) }
      | "name" => do return { draft with name := some (← d.text node) }
      | "maxPoints" => do return { draft with maxPoints := some (← d.count node) }
      | _ => do return { draft with rules := some (← d.list (Rule.ofNode d) node) })
    {}
    fun record draft => do
      let id ← record.require 0 "id" draft.id
      let name ← record.require 1 "name" draft.name
      let maxPoints ← record.require 2 "maxPoints" draft.maxPoints
      let rules ← record.require 3 "rules" draft.rules
      return ⟨id, name, maxPoints, rules⟩

structure NumberTable where
  first : Option Binary64 := none
  second : Option Binary64 := none
  third : Option Binary64 := none

def SeverityWeights.fields : List String := Severity.all.map Severity.name

def SeverityWeights.ofNode (d : Dialect N ε) : N → Except ε (SeverityWeights Binary64) :=
  d.readRecord "SeverityWeights" SeverityWeights.fields
    (fun key node (draft : NumberTable) =>
      match key with
      | "HIGH" => do return { draft with first := some (← d.double node) }
      | "MEDIUM" => do return { draft with second := some (← d.double node) }
      | _ => do return { draft with third := some (← d.double node) })
    {}
    fun record draft => do
      let high ← record.require 0 "HIGH" draft.first
      let medium ← record.require 1 "MEDIUM" draft.second
      let low ← record.require 2 "LOW" draft.third
      return ⟨high, medium, low⟩

def StatusScores.fields : List String := Status.all.map Status.name

def StatusScores.ofNode (d : Dialect N ε) : N → Except ε (StatusScores Binary64) :=
  d.readRecord "StatusScores" StatusScores.fields
    (fun key node (draft : NumberTable) =>
      match key with
      | "PASS" => do return { draft with first := some (← d.double node) }
      | "WARNING" => do return { draft with second := some (← d.double node) }
      | _ => do return { draft with third := some (← d.double node) })
    {}
    fun record draft => do
      let pass ← record.require 0 "PASS" draft.first
      let warning ← record.require 1 "WARNING" draft.second
      let fail ← record.require 2 "FAIL" draft.third
      return ⟨pass, warning, fail⟩

def Scoring.fields : List String := ["severityWeights", "statusScores"]

def Scoring.ofNode (d : Dialect N ε) : N → Except ε (Scoring Binary64) :=
  d.readRecord "ScoringWeights" Scoring.fields
    (fun key node (draft : Scoring Binary64) =>
      match key with
      | "severityWeights" => do
        return { draft with severityWeights := ← SeverityWeights.ofNode d node }
      | _ => do return { draft with statusScores := ← StatusScores.ofNode d node })
    Scoring.standard
    fun _ draft => .ok draft

structure Catalog.Draft where
  version : Option String := none
  engine : String := ""
  scoring : Scoring Binary64 := Scoring.standard
  categories : Option (List (Category Binary64)) := none

def Catalog.fields : List String := ["version", "engine", "scoring", "categories"]

def Catalog.ofNode (d : Dialect N ε) : N → Except ε (Catalog Binary64) :=
  d.readRecord "RuleCatalog" Catalog.fields
    (fun key node (draft : Catalog.Draft) =>
      match key with
      | "version" => do return { draft with version := some (← d.text node) }
      | "engine" => do return { draft with engine := ← d.text node }
      | "scoring" => do return { draft with scoring := ← Scoring.ofNode d node }
      | _ => do return { draft with categories := some (← d.list (Category.ofNode d) node) })
    {}
    fun record draft => do
      let version ← record.require 0 "version" draft.version
      let categories ← record.require 3 "categories" draft.categories
      return ⟨version, draft.engine, draft.scoring, categories⟩

end PageHealth
