import PipeExpr.Binary64.Shortest

set_option autoImplicit false

namespace PipeExpr

namespace Decimal

def text (d : Decimal) : List Char :=
  Nat.toDigits 10 d.digits

def point (d : Decimal) : Int :=
  d.text.length + d.exponent

/-- All digits in their places, filled up with zeros on either side of the point. -/
def positional (d : Decimal) : List Char :=
  if 0 ≤ d.exponent then d.text ++ List.replicate d.exponent.toNat '0' ++ ['.', '0']
  else if 0 < d.point then d.text.take d.point.toNat ++ '.' :: d.text.drop d.point.toNat
  else '0' :: '.' :: (List.replicate (-d.point).toNat '0' ++ d.text)

def exponentText (e : Int) : List Char :=
  let digits := Nat.toDigits 10 e.natAbs
  (if e < 0 then '-' else '+') :: (List.replicate (2 - digits.length) '0' ++ digits)

def scientific (d : Decimal) : List Char :=
  let fraction := d.text.drop 1
  d.text.take 1 ++ (if fraction.isEmpty then [] else '.' :: fraction) ++
    'e' :: exponentText (d.point - 1)

def compact (d : Decimal) : List Char :=
  if -4 ≤ d.point - 1 ∧ d.point - 1 < 16 then d.positional else d.scientific

end Decimal

namespace Binary64

def sign (negative : Bool) : String :=
  if negative then "-" else ""

/-- The compact numeral, or the name of a number that has none. -/
def text : Binary64 → String
  | finite negative m => sign negative ++ String.ofList m.shortest.compact
  | infinite negative => sign negative ++ "inf"
  | notANumber => "nan"

end Binary64

end PipeExpr
