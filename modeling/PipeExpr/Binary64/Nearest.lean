import PipeExpr.Binary64.Basic

set_option autoImplicit false

namespace PipeExpr

-- Powers of natural numbers are the built-in ones, whatever else is in scope.
attribute [local instance (high)] instPowNat

def roundDiv (num den : Nat) : Nat :=
  let quotient := num / den
  let rest := num % den
  if den < 2 * rest ∨ (2 * rest = den ∧ quotient % 2 = 1) then quotient + 1 else quotient

namespace Magnitude

/-- The magnitude nearest to `num / den` units. The exponent is the least at which the mantissa has
    no more than 53 bits; rounding up may carry it into a 54th. -/
def nearest? (num den : Nat) : Option Magnitude :=
  let exponent := (num / den).log2 + 1 - 53
  let mantissa := roundDiv num (den * 2 ^ exponent)
  if mantissa = 2 ^ (53 : Nat) then ofParts? (2 ^ (52 : Nat)) (exponent + 1) else ofParts? mantissa exponent

end Magnitude

structure Decimal where
  digits : Nat
  exponent : Int
deriving DecidableEq

namespace Decimal

def numerator (d : Decimal) : Nat :=
  d.digits * 10 ^ d.exponent.toNat * Magnitude.unitsPerOne

def denominator (d : Decimal) : Nat :=
  10 ^ (-d.exponent).toNat

/-- The nearest magnitude, if the number is below `2 ^ 1024 - 2 ^ 970`. -/
def nearest? (d : Decimal) : Option Magnitude :=
  Magnitude.nearest? d.numerator d.denominator

end Decimal

example : roundDiv 5 2 = 2 ∧ roundDiv 7 2 = 4 ∧ roundDiv 8 3 = 3 := by decide

end PipeExpr
