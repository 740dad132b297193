import PageHealth.Number.Binary64

/-! What scoring needs of its numbers. Catalogs, facts and results are generic in the number type,
so one definition has both its floating-point and its exact reading. -/
namespace PageHealth

class Scalar (α : Type) extends Add α, Sub α, Mul α, Div α where
  ofNat : Nat → α
  less : α → α → Bool
  atMost : α → α → Bool
  same : α → α → Bool
  isFinite : α → Bool
  nearestNat : α → Nat

namespace Scalar

variable {α : Type} [Scalar α]

/-- The number if it is positive, else zero; so a NaN and a negative zero become zero. -/
def positivePart (x : α) : α := if less (ofNat 0) x then x else ofNat 0

def clampUnit (x : α) : α :=
  let lower := if less x (ofNat 0) then ofNat 0 else x
  if less (ofNat 1) lower then ofNat 1 else lower

def sum (xs : List α) : α := xs.foldl (· + ·) (ofNat 0)

end Scalar

instance : Scalar Binary64 where
  ofNat := Binary64.ofNat
  less := Binary64.less
  atMost := Binary64.atMost
  same := Binary64.same
  isFinite := Binary64.isFinite
  nearestNat := Binary64.nearestNat

/-- The exact reading: every rational is finite and nothing is rounded but on demand. -/
instance : Scalar Rat where
  ofNat n := n
  less x y := x < y
  atMost x y := x ≤ y
  same x y := x = y
  isFinite _ := true
  nearestNat x := (x + 1 / 2).floor.toNat

end PageHealth
