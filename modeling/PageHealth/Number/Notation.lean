import PageHealth.Number.Decimal

namespace PageHealth

structure NumberNotation where
  /-- Leading exponents from here on are written positionally, … -/
  plainFrom : Int
  /-- … up to but not including this one. -/
  plainBelow : Int
  pointZero : Bool
  mantissaPointZero : Bool
  exponentPlus : Bool
  tie : DecimalTie
  nan : String
  infinity : String

def digitsText (n : Nat) : String := String.ofList (Nat.toDigits 10 n)

def padLeft (width : Nat) (fill : Char) (text : String) : String :=
  String.ofList (List.replicate (width - text.length) fill) ++ text

def padRight (width : Nat) (text : String) : String :=
  text ++ String.ofList (List.replicate (width - text.length) ' ')

namespace NumberNotation

def layout (f : NumberNotation) (d : Decimal) : String :=
  let digits := Nat.toDigits 10 d.digits
  let leading := d.exponent + (digits.length - 1 : Nat)
  if f.plainFrom ≤ leading ∧ leading < f.plainBelow then
    if 0 ≤ d.exponent then
      String.ofList (digits ++ List.replicate d.exponent.toNat '0') ++
        (if f.pointZero then ".0" else "")
    else if 0 ≤ leading then
      let whole := leading.toNat + 1
      String.ofList (digits.take whole ++ '.' :: digits.drop whole)
    else
      String.ofList ('0' :: '.' :: List.replicate (-leading - 1).toNat '0' ++ digits)
  else
    let mantissa :=
      match digits with
      | [digit] => digit :: (if f.mantissaPointZero then ['.', '0'] else [])
      | digit :: rest => digit :: '.' :: rest
      | [] => []
    let sign := if leading < 0 then "-" else if f.exponentPlus then "+" else ""
    String.ofList mantissa ++ "e" ++ sign ++ digitsText leading.natAbs

def write (f : NumberNotation) : Binary64 → String
  | .nan => f.nan
  | .signed negative rank =>
    let magnitude :=
      if rank.val = infiniteRank then f.infinity
      else if rank.val = 0 then f.layout ⟨0, 0⟩
      else f.layout (shortestDecimal f.tie rank)
    if negative then "-" ++ magnitude else magnitude

end NumberNotation

def messageNumber : NumberNotation where
  plainFrom := -400
  plainBelow := 400
  pointZero := false
  mantissaPointZero := false
  exponentPlus := false
  tie := .upward
  nan := "NaN"
  infinity := "inf"

def tenthsText : Binary64 → String
  | .nan => "NaN"
  | .signed negative rank =>
    let magnitude :=
      if rank = infiniteRank then "inf"
      else
        let tenths := divNearestEven (10 * units rank) unitsPerOne
        digitsText (tenths / 10) ++ "." ++ digitsText (tenths % 10)
    if negative then "-" ++ magnitude else magnitude

end PageHealth
