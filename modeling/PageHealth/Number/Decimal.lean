import PageHealth.Number.Binary64

namespace PageHealth

structure Decimal where
  digits : Nat
  exponent : Int
  deriving DecidableEq

namespace Decimal

/-- The nearest rank. Decimals too large or too small for any finite double are settled by their
exponent, before the power of ten is computed. -/
def rank (d : Decimal) : Nat :=
  if d.digits = 0 then 0
  else if 310 < d.exponent then infiniteRank
  else if d.exponent + ((d.digits.log2 + 3) / 3 : Nat) < -324 then 0
  else
    let num := d.digits * Nat.pow 10 d.exponent.toNat * unitsPerOne
    min (nearestRank num (Nat.pow 10 (-d.exponent).toNat)) infiniteRank

theorem rank_le (d : Decimal) : d.rank ≤ infiniteRank := by
  unfold rank
  split
  · omega
  split
  · omega
  split
  · omega
  · exact Nat.min_le_right _ _

def toBinary64 (negative : Bool) (d : Decimal) : Binary64 :=
  .signed negative ⟨d.rank, Nat.lt_succ_of_le d.rank_le⟩

end Decimal

inductive DecimalTie where
  | toEven
  | upward
  deriving DecidableEq

def gridRatio (rank : Nat) (exponent : Int) : Nat × Nat :=
  (units rank * Nat.pow 10 (-exponent).toNat, unitsPerOne * Nat.pow 10 exponent.toNat)

/-- The exponent of the leading decimal digit of a positive rank. The logarithm gives an estimate
from below that is at most one short. -/
def leadingExponent (rank : Nat) : Int :=
  let estimate := Int.fdiv ((((units rank).log2 : Int) - 1074) * 30103) 100000
  let (num, den) := gridRatio rank (estimate + 1)
  if den ≤ num then estimate + 1 else estimate

/-- Of the two neighbours of a rank's value on the grid of `10 ^ exponent`, the nearer one that
reads back to the rank. -/
def gridNeighbour? (tie : DecimalTie) (rank : Nat) (exponent : Int) : Option Decimal :=
  let (num, den) := gridRatio rank exponent
  let below : Decimal := ⟨num / den, exponent⟩
  let above : Decimal := ⟨num / den + 1, exponent⟩
  let twice := 2 * (num % den)
  let belowFirst := twice < den || (twice = den && tie = .toEven && below.digits % 2 = 0)
  if below.rank = rank ∧ (belowFirst ∨ above.rank ≠ rank) then some below
  else if above.rank = rank then some above
  else none

def Decimal.carry (d : Decimal) : Decimal :=
  if d.digits = 10 then ⟨1, d.exponent + 1⟩ else d

def unitDigits : Nat := Nat.pow 5 1074

def exactDecimal (rank : Nat) : Decimal := ⟨units rank * unitDigits, -1074⟩

def shortestNeighbour? (tie : DecimalTie) (rank : Nat) : Option Decimal :=
  let leading := leadingExponent rank
  (List.range 17).findSome? fun (n : Nat) => gridNeighbour? tie rank (leading - n)

/-- Seventeen digits suffice for every double; the exact value closes the search. -/
def shortestDecimal (tie : DecimalTie) (rank : Nat) : Decimal :=
  (shortestNeighbour? tie rank).elim (exactDecimal rank) Decimal.carry

end PageHealth
