import Mathlib.Tactic.Ring
import PipeExpr.Binary64.Shortest

set_option autoImplicit false

namespace PipeExpr

theorem roundDiv_mul {k : Nat} (pos : 0 < k) (num den : Nat) :
    roundDiv (num * k) (den * k) = roundDiv num den := by
  have up : den * k < 2 * (num % den * k) ↔ den < 2 * (num % den) := by
    rw [← Nat.mul_assoc]
    exact Nat.mul_lt_mul_right pos
  have half : 2 * (num % den * k) = den * k ↔ 2 * (num % den) = den := by
    rw [← Nat.mul_assoc]
    exact Nat.mul_left_inj pos.ne'
  simp only [roundDiv, Nat.mul_div_mul_right _ _ pos, Nat.mul_mod_mul_right, up, half]

theorem roundDiv_exact {den : Nat} (pos : 0 < den) (n : Nat) : roundDiv (n * den) den = n := by
  simp only [roundDiv, Nat.mul_mod_left, Nat.mul_div_cancel _ pos]
  rw [if_neg (by omega)]

theorem roundDiv_eq_or (num den : Nat) :
    roundDiv num den = num / den ∨ roundDiv num den = num / den + 1 := by
  simp only [roundDiv]
  split
  · exact .inr rfl
  · exact .inl rfl

namespace Magnitude

theorem nearest?_mul {k : Nat} (pos : 0 < k) (num den : Nat) :
    nearest? (num * k) (den * k) = nearest? num den := by
  have scaled : ∀ e, roundDiv (num * k) (den * k * 2 ^ e) = roundDiv num (den * 2 ^ e) := by
    intro e
    rw [Nat.mul_right_comm, roundDiv_mul pos]
  simp only [nearest?, Nat.mul_div_mul_right _ _ pos, scaled]

theorem nearest?_congr {num den num' den' : Nat} (pos : 0 < den) (pos' : 0 < den')
    (same : num * den' = num' * den) : nearest? num den = nearest? num' den' := by
  calc nearest? num den = nearest? (num * den') (den * den') := (nearest?_mul pos' ..).symm
    _ = nearest? (num' * den) (den' * den) := by rw [same, Nat.mul_comm den den']
    _ = nearest? num' den' := nearest?_mul pos ..

theorem log2_mul_two_pow {n : Nat} (h : n ≠ 0) (k : Nat) : (n * 2 ^ k).log2 = n.log2 + k := by
  induction k with
  | zero => rw [Nat.pow_zero, Nat.mul_one, Nat.add_zero]
  | succ k ih =>
    have pos : n * 2 ^ k ≠ 0 := Nat.mul_ne_zero h (Nat.pow_pos (by decide)).ne'
    rw [Nat.pow_succ, ← Nat.mul_assoc, Nat.mul_comm _ 2, Nat.log2_two_mul pos, ih, Nat.add_assoc]

theorem log2_units (m : Magnitude) : m.units.log2 + 1 - 53 = m.exponent := by
  rw [units]
  rcases m.normal with low | large
  · rw [low, Nat.pow_zero, Nat.mul_one]
    by_cases zero : m.mantissa = 0
    · rw [zero]
      rfl
    · have small := (Nat.log2_lt zero).mpr m.mantissa_lt
      omega
  · have nonzero : m.mantissa ≠ 0 := by
      rintro zero
      rw [zero] at large
      exact absurd large (by decide)
    have bits : m.mantissa.log2 = 52 := (Nat.log2_eq_iff nonzero).mpr ⟨large, m.mantissa_lt⟩
    rw [log2_mul_two_pow nonzero, bits]
    omega

theorem nearest?_units (m : Magnitude) : nearest? m.units 1 = some m := by
  have notCarried : m.mantissa ≠ 2 ^ 53 := m.mantissa_lt.ne
  simp only [nearest?, Nat.div_one, log2_units, Nat.one_mul]
  rw [units, roundDiv_exact (Nat.pow_pos (by decide)), if_neg notCarried, ofParts?,
    dif_pos ⟨m.mantissa_lt, m.normal, m.exponent_le⟩]

end Magnitude

namespace Decimal

theorem denominator_pos (d : Decimal) : 0 < d.denominator :=
  Nat.pow_pos (by decide)

theorem nearest?_shift (digits : Nat) (exponent : Int) :
    nearest? ⟨digits * 10, exponent⟩ = nearest? ⟨digits, exponent + 1⟩ := by
  apply Magnitude.nearest?_congr (denominator_pos _) (denominator_pos _)
  simp only [numerator, denominator]
  by_cases h : 0 ≤ exponent
  · have up : (exponent + 1).toNat = exponent.toNat + 1 := by omega
    have down : (-exponent).toNat = 0 ∧ (-(exponent + 1)).toNat = 0 := by omega
    rw [up, down.1, down.2]
    ring
  · have up : (exponent + 1).toNat = 0 ∧ exponent.toNat = 0 := by omega
    have down : (-exponent).toNat = (-(exponent + 1)).toNat + 1 := by omega
    rw [up.1, up.2, down]
    ring

theorem nearest?_dropZeros (fuel : Nat) (d : Decimal) :
    (dropZeros fuel d).nearest? = d.nearest? := by
  induction fuel generalizing d with
  | zero => rfl
  | succ fuel ih =>
    rw [dropZeros]
    split
    · rename_i zero
      have digits : d.digits / 10 * 10 = d.digits := by omega
      rw [ih, ← nearest?_shift, digits]
    · rfl

theorem nearest?_normalize (d : Decimal) : d.normalize.nearest? = d.nearest? := by
  rw [normalize]
  split
  · rename_i zero
    apply Magnitude.nearest?_congr (denominator_pos _) (denominator_pos _)
    simp only [numerator, zero, Nat.zero_mul]
  · exact nearest?_dropZeros _ d

end Decimal

namespace Magnitude

theorem nearest?_exactDecimal (m : Magnitude) : m.exactDecimal.nearest? = some m := by
  rw [← nearest?_units m]
  apply nearest?_congr (Decimal.denominator_pos _) Nat.one_pos
  have exponent : (-1074 : Int).toNat = 0 ∧ (- -1074 : Int).toNat = 1074 := by decide
  simp only [exactDecimal, Decimal.numerator, Decimal.denominator, exponent, unitsPerOne]
  -- The power is kept closed: it is too large to be written out.
  generalize 1074 = k
  have ten : 10 ^ k = 5 ^ k * 2 ^ k := by rw [← Nat.mul_pow]
  rw [ten, Nat.pow_zero, Nat.mul_one, Nat.mul_one, Nat.mul_assoc]

theorem nearest?_of_onGrid? {m : Magnitude} {grid : Int} {d : Decimal}
    (h : m.onGrid? grid = some d) : d.nearest? = some m := by
  -- What `nearest?` computes plays no part, and it must not be computed on a symbolic magnitude.
  generalize unfolded : onGrid? = f at h
  delta onGrid? at unfolded
  generalize Decimal.nearest? = reads at unfolded ⊢
  subst unfolded
  simp only at h
  split at h
  case h_1 below above =>
    cases h
    rcases roundDiv_eq_or _ _ with eq | eq
    · rw [eq]
      exact of_decide_eq_true below
    · rw [eq]
      exact of_decide_eq_true above
  case h_2 below _ =>
    cases h
    exact of_decide_eq_true below
  case h_3 _ above =>
    cases h
    exact of_decide_eq_true above
  case h_4 => cases h

/-- The shortest decimal of a magnitude reads back as the magnitude. -/
theorem nearest?_shortest (m : Magnitude) : m.shortest.nearest? = some m := by
  rw [shortest, Decimal.nearest?_normalize]
  generalize found :
    (List.range 17).findSome? (fun n => m.onGrid? (m.leadingPlace - (n + 1 : Nat))) = result
  cases result with
  | none => exact m.nearest?_exactDecimal
  | some d =>
    obtain ⟨n, -, onGrid⟩ := List.exists_of_findSome?_eq_some found
    exact nearest?_of_onGrid? onGrid

end Magnitude

end PipeExpr
