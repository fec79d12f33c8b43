/-!
# Binary floating-point numbers

The numbers of the 64-bit binary format as exact values. A finite magnitude is a whole number of
units of `2 ^ -1074`, the distance between neighbours next to zero, so that every question about a
number's value is a question about natural numbers.
-/

set_option autoImplicit false

namespace PipeExpr

-- Powers of natural numbers are the built-in ones, whatever else is in scope.
attribute [local instance (high)] instPowNat

/-- A finite magnitude of `mantissa * 2 ^ exponent` units. A mantissa below `2 ^ 52` goes with the
    lowest exponent only, so each magnitude is written in one way. -/
structure Magnitude where
  mantissa : Nat
  exponent : Nat
  mantissa_lt : mantissa < 2 ^ (53 : Nat)
  normal : exponent = 0 ∨ 2 ^ (52 : Nat) ≤ mantissa
  exponent_le : exponent ≤ 2045
deriving DecidableEq

namespace Magnitude

def unitsPerOne : Nat := 2 ^ (1074 : Nat)

def units (m : Magnitude) : Nat :=
  m.mantissa * 2 ^ m.exponent

def zero : Magnitude :=
  ⟨0, 0, by decide, .inl rfl, by decide⟩

def ofParts? (mantissa exponent : Nat) : Option Magnitude :=
  if h : mantissa < 2 ^ (53 : Nat) ∧ (exponent = 0 ∨ 2 ^ (52 : Nat) ≤ mantissa) ∧ exponent ≤ 2045 then
    some ⟨mantissa, exponent, h.1, h.2.1, h.2.2⟩
  else none

end Magnitude

inductive Binary64 where
  | finite (negative : Bool) (magnitude : Magnitude)
  | infinite (negative : Bool)
  | notANumber
deriving DecidableEq

end PipeExpr
