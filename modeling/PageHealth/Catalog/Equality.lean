import PageHealth.Catalog.Basic

/-! Equality of catalogs with numbers compared as numbers: a catalog that holds a NaN is not equal
even to itself, and the two zeros are not told apart. -/
namespace PageHealth

variable {α : Type} [Scalar α]

def Expected.same : Expected α → Expected α → Bool
  | .bool a, .bool b => a = b
  | .number a, .number b => Scalar.same a b
  | .text a, .text b => a = b
  | .range a b, .range c d => Scalar.same a c && Scalar.same b d
  | _, _ => false

def Condition.same (a b : Condition α) : Bool :=
  a.field = b.field && a.operator = b.operator && a.value.same b.value

def sameOption {β : Type} (same : β → β → Bool) : Option β → Option β → Bool
  | none, none => true
  | some a, some b => same a b
  | _, _ => false

def sameList {β : Type} (same : β → β → Bool) : List β → List β → Bool
  | [], [] => true
  | a :: as, b :: bs => same a b && sameList same as bs
  | _, _ => false

def Thresholds.same (a b : Thresholds α) : Bool :=
  a.pass.same b.pass && sameOption Condition.same a.warning b.warning

def Rule.same (a b : Rule α) : Bool :=
  a.id = b.id && a.severity = b.severity && a.message = b.message &&
    a.recommendation = b.recommendation &&
    sameOption (sameList Condition.same) a.checks b.checks &&
    sameOption Thresholds.same a.thresholds b.thresholds

def Category.same (a b : Category α) : Bool :=
  a.id = b.id && a.name = b.name && a.maxPoints = b.maxPoints && sameList Rule.same a.rules b.rules

def Scoring.same (a b : Scoring α) : Bool :=
  Severity.all.all (fun s =>
    Scalar.same (a.severityWeights.weight s) (b.severityWeights.weight s)) &&
  Status.all.all (fun s => Scalar.same (a.statusScores.share s) (b.statusScores.share s))

def Catalog.same (a b : Catalog α) : Bool :=
  a.version = b.version && a.engine = b.engine && a.scoring.same b.scoring &&
    sameList Category.same a.categories b.categories

end PageHealth
