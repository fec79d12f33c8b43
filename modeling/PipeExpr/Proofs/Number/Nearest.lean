import Mathlib.Algebra.Order.Group.Abs
import Mathlib.Tactic.FieldSimp
import Mathlib.Tactic.NormNum
import PipeExpr.Proofs.Number.Rounding
import PipeExpr.Proofs.Number.Value

set_option autoImplicit false

namespace PipeExpr

-- Powers of natural numbers are the built-in ones, whatever else is in scope.
attribute [local instance (high)] instPowNat

/-- `r` is nearest to `y` among the whole numbers, and even if it is not the only one. -/
structure RoundsTo (y : ℚ) (r : ℕ) : Prop where
  error_le : |y - r| ≤ 1 / 2
  even_of_half : |y - r| = 1 / 2 → Even r

theorem roundsTo_roundDiv {num den : ℕ} (pos : 0 < den) :
    RoundsTo (num / den : ℚ) (roundDiv num den) := by
  have den_pos : (0 : ℚ) < den := Nat.cast_pos.mpr pos
  have quotient : (num / den : ℚ) = (num / den : ℕ) + (num % den : ℕ) / (den : ℚ) := by
    rw [div_eq_iff den_pos.ne', add_mul, div_mul_cancel₀ _ den_pos.ne', ← Nat.cast_mul,
      ← Nat.cast_add, Nat.div_add_mod']
  have rest_lt : ((num % den : ℕ) / den : ℚ) < 1 := by
    rw [div_lt_one den_pos, Nat.cast_lt]
    exact Nat.mod_lt num pos
  have rest_le : ((num % den : ℕ) / den : ℚ) ≤ 1 / 2 ↔ 2 * (num % den) ≤ den := by
    rw [div_le_div_iff₀ den_pos two_pos]
    norm_cast
    omega
  have rest_half : ((num % den : ℕ) / den : ℚ) = 1 / 2 ↔ 2 * (num % den) = den := by
    rw [div_eq_div_iff den_pos.ne' two_ne_zero]
    norm_cast
    omega
  have rest_nonneg : (0 : ℚ) ≤ (num % den : ℕ) / den := by positivity
  rw [quotient, roundDiv]
  generalize ((num % den : ℕ) / den : ℚ) = rest at *
  split
  case isTrue up =>
    have half_le : 1 / 2 ≤ rest := by
      by_contra small
      have le := rest_le.mp (not_le.mp small).le
      have half : 2 * (num % den) = den := by omega
      exact small (rest_half.mpr half).ge
    have error : |(num / den : ℕ) + rest - ((num / den + 1 : ℕ) : ℚ)| = 1 - rest := by
      rw [abs_of_nonpos] <;> push_cast <;> linarith
    refine ⟨by linarith, fun half => ?_⟩
    have tie := rest_half.mp (by linarith)
    rw [Nat.even_iff]
    omega
  case isFalse down =>
    have le_half : rest ≤ 1 / 2 := rest_le.mpr (by omega)
    have error : |(num / den : ℕ) + rest - ((num / den : ℕ) : ℚ)| = rest := by
      rw [add_sub_cancel_left, abs_of_nonneg rest_nonneg]
    refine ⟨by linarith, fun half => ?_⟩
    have tie := rest_half.mp (by linarith)
    rw [Nat.even_iff]
    omega

namespace RoundsTo

variable {y : ℚ} {r : ℕ}

theorem le_of_ne (h : RoundsTo y r) {k : ℤ} (ne : k ≠ r) :
    |y - r| ≤ |y - k| ∧ (|y - k| = |y - r| → Even r ∧ Odd k) := by
  have apart : (1 : ℚ) ≤ |(k : ℚ) - r| := by
    have nonzero : k - r ≠ 0 := sub_ne_zero.mpr ne
    exact_mod_cast Int.one_le_abs nonzero
  have triangle := abs_sub_le (k : ℚ) y r
  rw [abs_sub_comm (k : ℚ) y] at triangle
  have near := h.error_le
  refine ⟨by linarith, fun tie => ?_⟩
  have half : |y - r| = 1 / 2 := by linarith
  have even := h.even_of_half half
  have close : |k - r| = 1 := by
    have le : |(k : ℚ) - r| ≤ 1 := by linarith
    exact_mod_cast le_antisymm le apart
  refine ⟨even, ?_⟩
  rcases (abs_eq zero_le_one).mp close with up | down <;> grind

theorem lt_iff (h : RoundsTo y r) {n : ℕ} (even : Even n) : r < n ↔ y < n - 1 / 2 := by
  obtain ⟨low, high⟩ := abs_le.mp h.error_le
  constructor
  · intro lt
    have le : (r : ℚ) + 1 ≤ n := by exact_mod_cast lt
    by_contra not_lt
    have middle : y - r = 1 / 2 := by linarith
    have next : (n : ℚ) = r + 1 := by linarith
    have even' := h.even_of_half (by rw [middle, abs_of_pos one_half_pos])
    have eq : n = r + 1 := by exact_mod_cast next
    rw [Nat.even_iff] at even even'
    omega
  · intro lt
    have less : (r : ℚ) < n := by linarith
    exact_mod_cast less

theorem le_of_le (h : RoundsTo y r) {n : ℕ} (le : y ≤ n) : r ≤ n := by
  have low := (abs_le.mp h.error_le).1
  have less : (r : ℚ) < n + 1 := by linarith
  exact Nat.lt_succ_iff.mp (by exact_mod_cast less)

theorem ge_of_ge (h : RoundsTo y r) {n : ℕ} (ge : n ≤ y) : n ≤ r := by
  have high := (abs_le.mp h.error_le).2
  have less : (n : ℚ) < r + 1 := by linarith
  exact Nat.lt_succ_iff.mp (by exact_mod_cast less)

end RoundsTo

namespace Magnitude

variable {num den : ℕ} {m m' : Magnitude}

theorem ofParts?_eq_some_iff {mantissa exponent : ℕ} :
    ofParts? mantissa exponent = some m ↔ m.mantissa = mantissa ∧ m.exponent = exponent := by
  rw [ofParts?]
  split
  case isTrue inside =>
    rw [Option.some.injEq]
    constructor
    · rintro rfl
      exact ⟨rfl, rfl⟩
    · rintro ⟨rfl, rfl⟩
      rfl
  case isFalse outside =>
    constructor
    · intro h
      cases h
    · rintro ⟨rfl, rfl⟩
      exact absurd ⟨m.mantissa_lt, m.normal, m.exponent_le⟩ outside

theorem units_inj (h : m.units = m'.units) : m = m' := by
  rw [← Option.some_inj, ← nearest?_units, ← nearest?_units, h]

theorem value_inj (h : m.value = m'.value) : m = m' := by
  rw [value_eq, value_eq, div_left_inj' unitsPerOne_pos.ne', Nat.cast_inj] at h
  exact units_inj h

theorem quotient_bounds (pos : 0 < den) {e : ℕ} (h : (num / den).log2 + 1 - 53 = e) :
    (num / (den * 2 ^ e : ℕ) : ℚ) < 2 ^ 53 ∧ (e = 0 ∨ 2 ^ 52 ≤ (num / (den * 2 ^ e : ℕ) : ℚ)) := by
  have scale_pos : (0 : ℚ) < (den * 2 ^ e : ℕ) :=
    Nat.cast_pos.mpr (Nat.mul_pos pos (Nat.two_pow_pos e))
  constructor
  · have upper : num / den < 2 ^ (53 + e) :=
      Nat.lt_of_lt_of_le Nat.lt_log2_self (Nat.pow_le_pow_right two_pos (by omega))
    rw [Nat.div_lt_iff_lt_mul pos, Nat.pow_add] at upper
    rw [div_lt_iff₀ scale_pos]
    have cast : (num : ℚ) < (2 ^ 53 * 2 ^ e * den : ℕ) := Nat.cast_lt.mpr upper
    push_cast at cast ⊢
    linarith
  · rw [or_iff_not_imp_left]
    intro nonzero
    have lower : 2 ^ (52 + e) ≤ num / den := by
      have bits : 52 + e = (num / den).log2 := by omega
      rw [bits]
      apply Nat.log2_self_le
      rintro zero
      rw [zero] at bits
      simp at bits
    rw [Nat.le_div_iff_mul_le pos, Nat.pow_add] at lower
    rw [le_div_iff₀ scale_pos]
    have cast : ((2 ^ 52 * 2 ^ e * den : ℕ) : ℚ) ≤ num := Nat.cast_le.mpr lower
    push_cast at cast ⊢
    linarith

/-- What rounding does: the number is brought below `2 ^ 53` by halvings, and rounded there. -/
theorem nearest?_spec (pos : 0 < den) : ∃ (e r : ℕ) (y : ℚ), (num / den : ℚ) = y * 2 ^ e ∧
    y < 2 ^ 53 ∧ (e = 0 ∨ 2 ^ 52 ≤ y) ∧ RoundsTo y r ∧
      nearest? num den = if r = 2 ^ 53 then ofParts? (2 ^ 52) (e + 1) else ofParts? r e := by
  obtain ⟨upper, lower⟩ := quotient_bounds pos rfl
  refine ⟨_, _, _, ?_, upper, lower, roundsTo_roundDiv (Nat.mul_pos pos (Nat.two_pow_pos _)), rfl⟩
  have den_ne : (den : ℚ) ≠ 0 := Nat.cast_ne_zero.mpr pos.ne'
  push_cast
  field_simp

theorem units_of_carry {e r : ℕ}
    (h : (if r = 2 ^ 53 then ofParts? (2 ^ 52) (e + 1) else ofParts? r e) = some m) :
    m.units = r * 2 ^ e ∧ (Even r → Even m.mantissa) := by
  split at h
  case isTrue carried =>
    obtain ⟨mantissa, exponent⟩ := ofParts?_eq_some_iff.mp h
    rw [units, mantissa, exponent, carried]
    exact ⟨by ring, fun _ => by decide⟩
  case isFalse =>
    obtain ⟨mantissa, exponent⟩ := ofParts?_eq_some_iff.mp h
    rw [units, mantissa, exponent]
    exact ⟨rfl, id⟩

theorem le_of_exponent_le {e r : ℕ} {y : ℚ} (rounded : RoundsTo y r) (fits : e ≤ m.exponent)
    (ne : m.units ≠ r * 2 ^ e) :
    |y * 2 ^ e - r * 2 ^ e| ≤ |y * 2 ^ e - m.units| ∧
      (|y * 2 ^ e - m.units| = |y * 2 ^ e - r * 2 ^ e| → Even r ∧ Odd m.mantissa) := by
  obtain ⟨shift, exponent⟩ := Nat.exists_eq_add_of_le fits
  have scale_pos : (0 : ℚ) < 2 ^ e := by positivity
  have scale (u : ℚ) : |y * 2 ^ e - u * 2 ^ e| = |y - u| * 2 ^ e := by
    rw [← sub_mul, abs_mul, abs_of_pos scale_pos]
  have units : m.units = m.mantissa * 2 ^ shift * 2 ^ e := by
    rw [Magnitude.units, exponent, Nat.pow_add]
    ring
  have other : ((m.mantissa * 2 ^ shift : ℕ) : ℤ) ≠ r := by
    intro same
    rw [units, Int.ofNat_inj.mp same] at ne
    exact ne rfl
  have cast : (m.units : ℚ) = ((m.mantissa * 2 ^ shift : ℕ) : ℤ) * 2 ^ e := by
    rw [units, Int.cast_natCast, Nat.cast_mul, Nat.cast_pow, Nat.cast_ofNat]
  obtain ⟨le, tie⟩ := rounded.le_of_ne other
  rw [cast, scale, scale]
  refine ⟨mul_le_mul_of_nonneg_right le scale_pos.le, fun equal => ?_⟩
  obtain ⟨even, odd⟩ := tie (mul_right_cancel₀ scale_pos.ne' equal)
  rw [Int.odd_coe_nat, Nat.odd_mul] at odd
  exact ⟨even, odd.1⟩

/-- At a lower exponent, a magnitude is below all that have 53 bits at the exponent of the
    rounding, and the least of these is a whole number. -/
theorem lt_of_exponent_lt {e r : ℕ} {y : ℚ} (rounded : RoundsTo y r) (below : m.exponent < e)
    (large : 2 ^ 52 ≤ y) : |y * 2 ^ e - r * 2 ^ e| < |y * 2 ^ e - m.units| := by
  have scale_pos : (0 : ℚ) < 2 ^ e := by positivity
  have small : (m.units : ℚ) < 2 ^ 52 * 2 ^ e := by
    have units_lt : m.units < 2 ^ 52 * 2 ^ e := by
      calc m.units < 2 ^ 53 * 2 ^ m.exponent :=
            Nat.mul_lt_mul_of_pos_right m.mantissa_lt (Nat.two_pow_pos _)
        _ = 2 ^ 52 * 2 ^ (m.exponent + 1) := by ring
        _ ≤ 2 ^ 52 * 2 ^ e := Nat.mul_le_mul_left _ (Nat.pow_le_pow_right two_pos below)
    have cast : (m.units : ℚ) < (2 ^ 52 * 2 ^ e : ℕ) := Nat.cast_lt.mpr units_lt
    push_cast at cast
    exact cast
  have error_le : |y - r| ≤ y - 2 ^ 52 := by
    rw [← abs_of_nonneg (sub_nonneg.mpr large)]
    by_cases same : ((2 ^ 52 : ℕ) : ℤ) = r
    · rw [← Int.cast_natCast r, ← same]
      norm_num
    · have le := (rounded.le_of_ne same).1
      norm_num at le ⊢
      exact le
  have scaled_le := mul_le_mul_of_nonneg_right error_le scale_pos.le
  rw [← sub_mul, abs_mul, abs_of_pos scale_pos]
  apply lt_of_lt_of_le _ (le_abs_self _)
  linarith

theorem nearest_units (pos : 0 < den) (h : nearest? num den = some m) (ne : m' ≠ m) :
    |(num / den : ℚ) - m.units| ≤ |(num / den : ℚ) - m'.units| ∧
      (|(num / den : ℚ) - m'.units| = |(num / den : ℚ) - m.units| →
        Even m.mantissa ∧ Odd m'.mantissa) := by
  obtain ⟨e, r, y, scaled, -, lower, rounded, eq⟩ := nearest?_spec pos
  rw [eq] at h
  obtain ⟨units, even⟩ := units_of_carry h
  have cast : (m.units : ℚ) = r * 2 ^ e := by
    rw [units, Nat.cast_mul, Nat.cast_pow, Nat.cast_ofNat]
  rw [scaled, cast]
  by_cases fits : e ≤ m'.exponent
  · have other : m'.units ≠ r * 2 ^ e := fun same => ne (units_inj (same.trans units.symm))
    obtain ⟨le, tie⟩ := le_of_exponent_le rounded fits other
    exact ⟨le, fun equal => (tie equal).imp_left even⟩
  · have below := Nat.not_le.mp fits
    have large : 2 ^ 52 ≤ y := lower.resolve_left (Nat.ne_zero_of_lt below)
    have farther := lt_of_exponent_lt rounded below large
    exact ⟨farther.le, fun tie => absurd tie farther.ne'⟩

theorem isSome_ofParts?_iff {mantissa exponent : ℕ} :
    (ofParts? mantissa exponent).isSome = true ↔
      mantissa < 2 ^ 53 ∧ (exponent = 0 ∨ 2 ^ 52 ≤ mantissa) ∧ exponent ≤ 2045 := by
  rw [ofParts?]
  split <;> simp_all

theorem isSome_nearest?_iff_units (pos : 0 < den) :
    (nearest? num den).isSome = true ↔ (num / den : ℚ) < (2 ^ 53 - 1 / 2) * 2 ^ 2045 := by
  obtain ⟨e, r, y, scaled, upper, lower, rounded, eq⟩ := nearest?_spec pos
  have r_le : r ≤ 2 ^ 53 := rounded.le_of_le (by exact_mod_cast upper.le)
  have r_large : e = 0 ∨ 2 ^ 52 ≤ r :=
    lower.imp_right fun ge => rounded.ge_of_ge (by exact_mod_cast ge)
  have some_iff : (nearest? num den).isSome = true ↔ e < 2045 ∨ e = 2045 ∧ r < 2 ^ 53 := by
    rw [eq]
    split <;> rw [isSome_ofParts?_iff] <;> omega
  have middle : r < 2 ^ 53 ↔ y < 2 ^ 53 - 1 / 2 := by
    rw [rounded.lt_iff (by decide)]
    norm_num
  rw [some_iff, scaled, middle]
  -- The power is kept closed: it is too large to be written out.
  clear some_iff eq
  generalize 2045 = top
  have power : ∀ {i j : ℕ}, i < j → (2 : ℚ) ^ i * 2 ≤ 2 ^ j := by
    intro i j lt
    rw [← pow_succ]
    exact pow_le_pow_right₀ one_le_two lt
  have top_pos : (0 : ℚ) < 2 ^ top := by positivity
  rcases lt_trichotomy e top with below | rfl | above
  · have scale_le := power below
    have less : y * 2 ^ e < 2 ^ 53 * 2 ^ e := mul_lt_mul_of_pos_right upper (by positivity)
    refine iff_of_true (.inl below) ?_
    linarith
  · rw [mul_lt_mul_iff_of_pos_right top_pos]
    simp
  · have scale_ge := power above
    have large : 2 ^ 52 ≤ y := lower.resolve_left (by omega)
    have greater : 2 ^ 52 * 2 ^ e ≤ y * 2 ^ e := mul_le_mul_of_nonneg_right large (by positivity)
    refine iff_of_false (by omega) ?_
    linarith

/-- The middle between the greatest magnitude and the power of two that would follow it. -/
def rangeLimit : ℚ := 2 ^ 1024 - 2 ^ 970

theorem rangeLimit_eq : (2 ^ 53 - 1 / 2) * 2 ^ 2045 / unitsPerOne = rangeLimit := by
  have whole : (2 : ℚ) ^ 1024 = 2 ^ 53 * (2 * 2 ^ 970) := by
    rw [← pow_succ', ← pow_add]
  have shifted (k : ℕ) : (2 : ℚ) ^ (971 + k) = 2 * 2 ^ 970 * (2 ^ k : ℕ) := by
    rw [Nat.cast_pow, Nat.cast_ofNat, ← pow_succ', ← pow_add]
  have top : (2 : ℚ) ^ 2045 = 2 * 2 ^ 970 * unitsPerOne := by
    unfold unitsPerOne
    exact shifted 1074
  rw [div_eq_iff unitsPerOne_pos.ne', rangeLimit, whole, top]
  generalize (2 : ℚ) ^ 970 = step
  ring

theorem one_lt_rangeLimit : 1 < rangeLimit := by
  have product : rangeLimit = (2 ^ 54 - 1) * 2 ^ 970 := by
    rw [sub_mul, ← pow_add, one_mul, rangeLimit]
  have large : (1 : ℚ) ≤ 2 ^ 970 := one_le_pow₀ one_le_two
  rw [product]
  generalize (2 : ℚ) ^ 970 = step at large
  linarith

/-- No floating-point number is nearer to `q`. If another one is as near, the mantissa is even. -/
structure NearestTo (m : Magnitude) (q : ℚ) : Prop where
  nearest : ∀ (x : Binary64) (v : ℚ), x.value? = some v → |q - m.value| ≤ |q - v|
  even_of_tie : ∀ (x : Binary64) (v : ℚ), x.value? = some v → v ≠ m.value →
    |q - v| = |q - m.value| → Even m.mantissa

theorem value_nonneg (m : Magnitude) : 0 ≤ m.value := by
  rw [value_eq]
  exact div_nonneg (Nat.cast_nonneg _) unitsPerOne_pos.le

theorem value_zero : zero.value = 0 := by
  rw [value_eq, units, zero, Nat.zero_mul, Nat.cast_zero, zero_div]

theorem abs_sub_value (q : ℚ) (m : Magnitude) :
    |q / unitsPerOne - m.value| = |q - m.units| / unitsPerOne := by
  rw [value_eq, ← sub_div, abs_div, abs_of_pos unitsPerOne_pos]

theorem nearest_value (pos : 0 < den) (h : nearest? num den = some m) (ne : m' ≠ m) :
    |(num / den / unitsPerOne : ℚ) - m.value| ≤ |(num / den / unitsPerOne : ℚ) - m'.value| ∧
      (|(num / den / unitsPerOne : ℚ) - m'.value| = |(num / den / unitsPerOne : ℚ) - m.value| →
        Even m.mantissa ∧ Odd m'.mantissa) := by
  rw [abs_sub_value, abs_sub_value, div_le_div_iff_of_pos_right unitsPerOne_pos,
    div_left_inj' unitsPerOne_pos.ne']
  exact nearest_units pos h ne

theorem nearestTo_of_nearest? (pos : 0 < den) (h : nearest? num den = some m) :
    m.NearestTo (num / den / unitsPerOne : ℚ) := by
  have nonneg : (0 : ℚ) ≤ num / den / unitsPerOne :=
    div_nonneg (div_nonneg (Nat.cast_nonneg _) (Nat.cast_nonneg _)) unitsPerOne_pos.le
  have others (m' : Magnitude) (ne : m' ≠ m) := nearest_value pos h ne
  generalize (num / den / unitsPerOne : ℚ) = q at nonneg others
  have le (m' : Magnitude) : |q - m.value| ≤ |q - m'.value| := by
    by_cases eq : m' = m
    · rw [eq]
    · exact (others m' eq).1
  have even (m' : Magnitude) (ne : m'.value ≠ m.value) (tie : |q - m'.value| = |q - m.value|) :
      Even m.mantissa :=
    ((others m' fun eq => ne (congrArg value eq)).2 tie).1
  have to_zero : |q - zero.value| = q := by rw [value_zero, sub_zero, abs_of_nonneg nonneg]
  have zero_le := le zero
  rw [to_zero] at zero_le
  have below (m' : Magnitude) : |q - -m'.value| = q + m'.value := by
    rw [sub_neg_eq_add, abs_of_nonneg (add_nonneg nonneg m'.value_nonneg)]
  constructor
  case nearest =>
    intro x v value
    match x, value with
    | .finite false m', rfl => exact le m'
    | .finite true m', rfl =>
      have nonneg' := m'.value_nonneg
      change _ ≤ |q - -m'.value|
      rw [below]
      linarith
  case even_of_tie =>
    intro x v value ne tie
    match x, value with
    | .finite false m', rfl => exact even m' ne tie
    | .finite true m', rfl =>
      have nonneg' := m'.value_nonneg
      change |q - -m'.value| = _ at tie
      change -m'.value ≠ m.value at ne
      rw [below] at tie
      have null : m'.value = 0 := by linarith
      rw [null, neg_zero, ← value_zero] at ne
      exact even zero ne (by linarith)

theorem isSome_nearest?_iff (pos : 0 < den) : (nearest? num den).isSome = true ↔
    (num / den / unitsPerOne : ℚ) < rangeLimit := by
  rw [isSome_nearest?_iff_units pos, ← rangeLimit_eq,
    div_lt_div_iff_of_pos_right unitsPerOne_pos]

/-- The middle between zero and the least positive magnitude goes to zero, which is even. -/
theorem nearestTo_zero {q : ℚ} (nonneg : 0 ≤ q) (small : q ≤ 1 / 2 ^ 1075) : zero.NearestTo q := by
  refine ⟨fun x v value => ?_, fun _ _ _ _ _ => by decide⟩
  have half (k : ℕ) : 2 * (1 / 2 ^ (k + 1) : ℚ) = 1 / (2 ^ k : ℕ) := by
    rw [Nat.cast_pow, Nat.cast_ofNat, pow_succ]
    field_simp
  have twice : 2 * q ≤ 1 / unitsPerOne := by
    unfold unitsPerOne
    rw [← half 1074]
    exact mul_le_mul_of_nonneg_left small zero_le_two
  clear small half
  have apart : v ≤ 0 ∨ 2 * q ≤ v := by
    match x, value with
    | .finite true m, rfl => exact .inl (neg_nonpos.mpr m.value_nonneg)
    | .finite false m, rfl =>
      change m.value ≤ 0 ∨ 2 * q ≤ m.value
      rw [value_eq]
      rcases Nat.eq_zero_or_pos m.units with null | positive
      · rw [null, Nat.cast_zero, zero_div]
        exact .inl le_rfl
      · have one_le : (1 : ℚ) ≤ m.units := by exact_mod_cast positive
        have least := div_le_div_of_nonneg_right one_le unitsPerOne_pos.le
        exact .inr (by linarith)
  rw [value_zero, sub_zero, abs_of_nonneg nonneg]
  rcases apart with below | above
  · exact le_trans (by linarith) (le_abs_self _)
  · exact le_trans (by linarith) (neg_le_abs _)

theorem nearest?_eq_some_iff (pos : 0 < den) : nearest? num den = some m ↔
    (num / den / unitsPerOne : ℚ) < rangeLimit ∧ m.NearestTo (num / den / unitsPerOne : ℚ) := by
  rw [← isSome_nearest?_iff pos]
  constructor
  · intro h
    exact ⟨Option.isSome_of_eq_some h, nearestTo_of_nearest? pos h⟩
  · rintro ⟨inside, best⟩
    obtain ⟨m', found⟩ := Option.isSome_iff_exists.mp inside
    suffices same : m' = m by rw [found, same]
    by_contra ne
    obtain ⟨le, tie⟩ := nearest_value pos found (Ne.symm ne)
    have value : (Binary64.finite false m').value? = some m'.value := rfl
    have equal := le_antisymm (best.nearest _ _ value) le
    have even := best.even_of_tie _ _ value (fun eq => ne (value_inj eq)) equal.symm
    exact Nat.not_even_iff_odd.mpr (tie equal).2 even

end Magnitude

namespace Decimal

def value (d : Decimal) : ℚ :=
  d.digits * 10 ^ d.exponent

theorem value_eq (d : Decimal) :
    (d.numerator / d.denominator / Magnitude.unitsPerOne : ℚ) = d.value := by
  have power : (10 : ℚ) ^ d.exponent = 10 ^ d.exponent.toNat / 10 ^ (-d.exponent).toNat := by
    rw [← zpow_natCast, ← zpow_natCast, ← zpow_sub₀ (by norm_num)]
    congr 1
    omega
  rw [numerator, denominator, value, power, Nat.cast_mul, Nat.cast_mul, Nat.cast_pow,
    Nat.cast_pow, Nat.cast_ofNat, div_right_comm, mul_div_cancel_right₀ _
    Magnitude.unitsPerOne_pos.ne', mul_div_assoc]

/-- A decimal goes to the magnitude nearest to it, and there is just one. -/
theorem nearest?_eq_some_iff {d : Decimal} {m : Magnitude} :
    d.nearest? = some m ↔ d.value < Magnitude.rangeLimit ∧ m.NearestTo d.value := by
  rw [nearest?, Magnitude.nearest?_eq_some_iff d.denominator_pos, value_eq]

theorem nearest?_eq_none_iff {d : Decimal} :
    d.nearest? = none ↔ Magnitude.rangeLimit ≤ d.value := by
  rw [← not_lt, ← value_eq, ← Magnitude.isSome_nearest?_iff d.denominator_pos, nearest?]
  simp

end Decimal

end PipeExpr
