import PageHealth.Number.Decimal
import PageHealth.Text

namespace PageHealth.Yaml

def lowerCase (cs : List Char) : String := String.ofList (cs.map Char.toLower)

def digitsInBase? (base : Nat) (cs : List Char) : Option Nat := do
  let digits ← (cs.filter (· ≠ '_')).mapM hexDigit?
  if digits.isEmpty ∨ digits.any (base ≤ ·) then none
  else some (digits.foldl (fun n d => n * base + d) 0)

def natural? : List Char → Option Nat
  | '0' :: c :: rest =>
    if c = 'x' ∨ c = 'X' then digitsInBase? 16 rest
    else if c = 'o' ∨ c = 'O' then digitsInBase? 8 rest
    else if c = 'b' ∨ c = 'B' then digitsInBase? 2 rest
    else digitsInBase? 10 ('0' :: c :: rest)
  | cs => digitsInBase? 10 cs

def unsigned? : List Char → Option Nat
  | '+' :: rest => natural? rest
  | cs => natural? cs

def integer? (cs : List Char) : Option Int := do
  let (negative, digits) := splitSign cs
  let n ← natural? digits
  if negative then if n ≤ 9223372036854775808 then some (-(n : Int)) else none
  else if n < 18446744073709551616 then some n else none

def exponent? : List Char → Option Int
  | [] => some 0
  | c :: rest =>
    if c = 'e' ∨ c = 'E' then
      let (negative, digits) := splitSign rest
      if digits.isEmpty ∨ !digits.all isDigit then none
      else if negative then some (-(digitsValue digits : Int))
      else some (digitsValue digits)
    else none

def decimal? (cs : List Char) : Option Decimal := do
  let (whole, rest) := takeDigits cs
  let (fraction, rest) :=
    match rest with
    | '.' :: rest => takeDigits rest
    | rest => ([], rest)
  if whole.isEmpty ∧ fraction.isEmpty then none
  else
    let exponent ← exponent? rest
    some ⟨digitsValue (whole ++ fraction), exponent - fraction.length⟩

def double? (cs : List Char) : Option Binary64 :=
  let (negative, magnitude) := splitSign cs
  let word := lowerCase magnitude
  if word = "inf" ∨ word = "infinity" ∨ word = ".inf" then some (Binary64.infinity negative)
  else if word = "nan" ∨ lowerCase cs = ".nan" then some .nan
  else (decimal? magnitude).map (Decimal.toBinary64 negative)

end PageHealth.Yaml
