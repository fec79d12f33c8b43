import PipeExpr.Binary64.Nearest

/-!
# The shortest decimal of a magnitude

Of the decimals that read back as a magnitude, one with the fewest digits, and of those the nearest.
One to seventeen digits are tried in turn; on each grid only the two neighbours of the magnitude can
be nearest. Whatever is answered reads back, because reading back is what is tested.
-/

set_option autoImplicit false

namespace PipeExpr

-- Powers of natural numbers are the built-in ones, whatever else is in scope.
attribute [local instance (high)] instPowNat

def digitCount (n : Nat) : Nat :=
  (Nat.toDigits 10 n).length

namespace Decimal

def dropZeros : Nat → Decimal → Decimal
  | 0, d => d
  | fuel + 1, d =>
    if d.digits % 10 = 0 then dropZeros fuel ⟨d.digits / 10, d.exponent + 1⟩ else d

def normalize (d : Decimal) : Decimal :=
  if d.digits = 0 then ⟨0, 0⟩ else dropZeros (digitCount d.digits) d

end Decimal

namespace Magnitude

/-- The place before the leading digit: the least `p` with the value below `10 ^ p`. Scaling by
    `10 ^ 324` brings every positive magnitude above one. -/
def leadingPlace (m : Magnitude) : Int :=
  (digitCount (m.units * 10 ^ (324 : Nat) / unitsPerOne) : Int) - 324

/-- The nearer of the two multiples of `10 ^ grid` around the magnitude that read back as it, the
    even one on a tie. -/
def onGrid? (m : Magnitude) (grid : Int) : Option Decimal :=
  let num := m.units * 10 ^ (-grid).toNat
  let den := unitsPerOne * 10 ^ grid.toNat
  let below : Decimal := ⟨num / den, grid⟩
  let above : Decimal := ⟨num / den + 1, grid⟩
  match decide (below.nearest? = some m), decide (above.nearest? = some m) with
  | true, true => some ⟨roundDiv num den, grid⟩
  | true, false => some below
  | false, true => some above
  | false, false => none

def exactDecimal (m : Magnitude) : Decimal :=
  ⟨m.units * 5 ^ (1074 : Nat), -1074⟩

def shortest (m : Magnitude) : Decimal :=
  let found := (List.range 17).findSome? fun n => m.onGrid? (m.leadingPlace - (n + 1 : Nat))
  (found.getD m.exactDecimal).normalize

end Magnitude

end PipeExpr
