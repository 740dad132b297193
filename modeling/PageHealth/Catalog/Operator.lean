import PageHealth.Catalog.Basic
import PageHealth.Facts

/-! Comparing a measured value with an expected one. Nothing is coerced: a value that is absent or
of another kind matches no condition. -/
namespace PageHealth

inductive Operator where
  | equals
  | greater
  | greaterOrEqual
  | less
  | lessOrEqual
  | between
  | outside
  deriving DecidableEq

namespace Operator

def all : List Operator := [equals, greater, greaterOrEqual, less, lessOrEqual, between, outside]

def name : Operator → String
  | equals => "equals"
  | greater => "gt"
  | greaterOrEqual => "gte"
  | less => "lt"
  | lessOrEqual => "lte"
  | between => "between"
  | outside => "outside"

def ofName? (name : String) : Option Operator := all.find? fun op => op.name = name

def unknownMessage (name : String) : String := "Unknown operator: " ++ name

def expectsRange : Operator → Bool
  | between | outside => true
  | _ => false

variable {α : Type}

def accepts : Operator → Expected α → Bool
  | equals, .range _ _ => false
  | equals, _ => true
  | between, .range _ _ => true
  | outside, .range _ _ => true
  | between, _ => false
  | outside, _ => false
  | _, .number _ => true
  | _, _ => false

variable [Scalar α]

def matchesFact : Operator → Fact α → Expected α → Bool
  | equals, .bool a, .bool b => a = b
  | equals, .number a, .number b => Scalar.same a b
  | equals, .text a, .text b => a = b
  | greater, .number a, .number b => Scalar.less b a
  | greaterOrEqual, .number a, .number b => Scalar.atMost b a
  | less, .number a, .number b => Scalar.less a b
  | lessOrEqual, .number a, .number b => Scalar.atMost a b
  | between, .number x, .range least greatest => Scalar.atMost least x && Scalar.atMost x greatest
  | outside, .number x, .range least greatest => Scalar.less x least || Scalar.less greatest x
  | _, _, _ => false

def matchesFact? (op : Operator) (actual : Option (Fact α)) (expected : Expected α) : Bool :=
  match actual with
  | some fact => op.matchesFact fact expected
  | none => false

end Operator

/-- A condition whose operator is unknown holds of no facts. -/
def Condition.holds {α : Type} [Scalar α] (condition : Condition α) (facts : Facts α) : Bool :=
  match Operator.ofName? condition.operator with
  | some op => op.matchesFact? (facts.lookup condition.field) condition.value
  | none => false

end PageHealth
