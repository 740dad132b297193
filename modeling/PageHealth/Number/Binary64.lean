/-! Binary floating-point numbers of 64 bits. A magnitude is named by its rank in the
increasing list of all magnitudes, so comparing magnitudes is comparing natural numbers, and
infinity is simply the last rank. Every operation is the exact result rounded once, to the
nearest magnitude and on a tie to the even rank. -/
namespace PageHealth

def binadeSize : Nat := 4503599627370496

/-- The rank of infinity: one binade of subnormal magnitudes and 2046 of normal ones come first. -/
def infiniteRank : Nat := 2047 * binadeSize

/-- How many times the least positive magnitude goes into one. -/
def unitsPerOne : Nat := Nat.pow 2 1074

def units (rank : Nat) : Nat :=
  let shift := rank / binadeSize - 1
  (rank - shift * binadeSize) * Nat.pow 2 shift

def divNearestEven (num den : Nat) : Nat :=
  let quotient := num / den
  let twice := 2 * (num % den)
  if twice < den then quotient
  else if den < twice then quotient + 1
  else quotient + quotient % 2

/-- The rank nearest to `num / den` units. Within a binade ranks are evenly spaced, so this is one
rounded quotient; rounding up past a binade's end lands on the next binade's first rank. -/
def nearestRank (num den : Nat) : Nat :=
  let shift := (num / den).log2 - 52
  shift * binadeSize + divNearestEven num (den * Nat.pow 2 shift)

inductive Binary64 where
  | nan
  | signed (negative : Bool) (rank : Fin (infiniteRank + 1))
  deriving DecidableEq

namespace Binary64

def round (negative : Bool) (num den : Nat) : Binary64 :=
  .signed negative ⟨min (nearestRank num den) infiniteRank, by omega⟩

def zero (negative : Bool) : Binary64 := .signed negative 0

def infinity (negative : Bool) : Binary64 := .signed negative ⟨infiniteRank, by omega⟩

def ofRatio (negative : Bool) (num den : Nat) : Binary64 :=
  round negative (num * unitsPerOne) den

def ofNat (n : Nat) : Binary64 := ofRatio false n 1

def ofInt (n : Int) : Binary64 := ofRatio (n < 0) n.natAbs 1

def isFinite : Binary64 → Bool
  | .nan => false
  | .signed _ rank => rank < infiniteRank

def neg : Binary64 → Binary64
  | .nan => .nan
  | .signed negative rank => .signed (!negative) rank

def signedUnits (negative : Bool) (rank : Nat) : Int :=
  if negative then -(units rank : Int) else units rank

/-- A zero sum is negative only when both terms are. -/
def add : Binary64 → Binary64 → Binary64
  | .signed s a, .signed t b =>
    if a = infiniteRank then
      if b = infiniteRank ∧ s ≠ t then .nan else .signed s a
    else if b = infiniteRank then .signed t b
    else
      let sum := signedUnits s a + signedUnits t b
      round (if sum = 0 then s && t else sum < 0) sum.natAbs 1
  | _, _ => .nan

def sub (x y : Binary64) : Binary64 := add x (neg y)

def mul : Binary64 → Binary64 → Binary64
  | .signed s a, .signed t b =>
    if a = infiniteRank ∨ b = infiniteRank then
      if a = 0 ∨ b = 0 then .nan else infinity (s != t)
    else round (s != t) (units a * units b) unitsPerOne
  | _, _ => .nan

def div : Binary64 → Binary64 → Binary64
  | .signed s a, .signed t b =>
    if a = infiniteRank then
      if b = infiniteRank then .nan else infinity (s != t)
    else if b = infiniteRank then zero (s != t)
    else if b = 0 then
      if a = 0 then .nan else infinity (s != t)
    else round (s != t) (units a * unitsPerOne) (units b)
  | _, _ => .nan

/-- The place on the number line, the two zeros sharing one place; a NaN has none. -/
def place : Binary64 → Option Int
  | .nan => none
  | .signed negative rank => some (if negative then -(rank : Int) else rank)

def less (x y : Binary64) : Bool :=
  match x.place, y.place with
  | some a, some b => a < b
  | _, _ => false

def atMost (x y : Binary64) : Bool :=
  match x.place, y.place with
  | some a, some b => a ≤ b
  | _, _ => false

/-- Equality as numbers: the two zeros are equal and a NaN equals nothing. -/
def same (x y : Binary64) : Bool :=
  match x.place, y.place with
  | some a, some b => a = b
  | _, _ => false

def nearestNat : Binary64 → Nat
  | .signed false rank =>
    if rank < infiniteRank then (2 * units rank + unitsPerOne) / (2 * unitsPerOne) else 0
  | _ => 0

instance : Add Binary64 := ⟨add⟩
instance : Sub Binary64 := ⟨sub⟩
instance : Mul Binary64 := ⟨mul⟩
instance : Div Binary64 := ⟨div⟩

end Binary64

end PageHealth
