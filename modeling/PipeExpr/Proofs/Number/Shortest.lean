import Mathlib.Algebra.Order.Group.Pointwise.Interval
import Mathlib.Data.Nat.Cast.Order.Field
import PipeExpr.Proofs.Number.Notation

/-!
# Shortest decimals

The decimal that is written for a magnitude has the fewest digits of all that read back as it, and
is the nearest to it of those. The reason is that whatever lies between a magnitude and a decimal
that reads back reads back itself: on a grid of multiples of one power of ten only the neighbours of
the magnitude need to be tried, and of the grids only those up to its leading place. On the
seventeenth of them, which is finer than half of a last binary place, a neighbour does read back.
-/

set_option autoImplicit false

namespace PipeExpr

-- Powers of natural numbers are the built-in ones, whatever else is in scope.
attribute [local instance (high)] instPowNat

variable {m m' : Magnitude} {d d' : Decimal} {q r : ℚ} {g : ℤ} {a b : ℕ}

theorem abs_sub_add_of_mem_uIcc {v : ℚ} (inside : q ∈ Set.uIcc v r) :
    |r - q| + |q - v| = |r - v| := by
  rcases Set.mem_uIcc.mp inside with ⟨low, high⟩ | ⟨low, high⟩
  · rw [abs_of_nonneg, abs_of_nonneg, abs_of_nonneg] <;> linarith
  · rw [abs_of_nonpos, abs_of_nonpos, abs_of_nonpos] <;> linarith

namespace Magnitude

theorem value_lt_rangeLimit (m : Magnitude) : m.value < rangeLimit := by
  have inside : (nearest? m.units 1).isSome = true := by
    rw [nearest?_units]
    rfl
  rwa [isSome_nearest?_iff Nat.one_pos, Nat.cast_one, div_one, ← value_eq] at inside

/-- A magnitude that is nearest to a number is nearest to whatever lies between the two. -/
theorem NearestTo.between (h : m.NearestTo r) (inside : q ∈ Set.uIcc m.value r) :
    m.NearestTo q := by
  have parts := abs_sub_add_of_mem_uIcc inside
  constructor
  case nearest =>
    intro x v value
    have le := h.nearest x v value
    have triangle := abs_sub_le r q v
    linarith
  case even_of_tie =>
    intro x v value ne tie
    have le := h.nearest x v value
    have triangle := abs_sub_le r q v
    exact h.even_of_tie x v value ne (by linarith)

end Magnitude

namespace Decimal

theorem nearest?_between (h : d'.nearest? = some m)
    (inside : d.value ∈ Set.uIcc m.value d'.value) : d.nearest? = some m := by
  obtain ⟨range, best⟩ := nearest?_eq_some_iff.mp h
  refine nearest?_eq_some_iff.mpr ⟨?_, best.between inside⟩
  have limit := m.value_lt_rangeLimit
  rcases Set.mem_uIcc.mp inside with ⟨-, high⟩ | ⟨-, high⟩ <;> linarith

end Decimal

theorem div_lt_natDiv_succ (num : ℕ) {den : ℕ} (pos : 0 < den) :
    (num / den : ℚ) < (num / den + 1 : ℕ) := by
  rw [div_lt_iff₀ (Nat.cast_pos.mpr pos)]
  have lt : num < (num / den + 1) * den := Nat.lt_mul_of_div_lt (Nat.lt_succ_self _) pos
  exact_mod_cast lt

namespace Magnitude

theorem ten_zpow_pos (g : ℤ) : (0 : ℚ) < 10 ^ g :=
  zpow_pos (by norm_num) g

theorem quotient_eq (m : Magnitude) (g : ℤ) :
    ((m.units * 10 ^ (-g).toNat : ℕ) / (unitsPerOne * 10 ^ g.toNat : ℕ) : ℚ) =
      m.value / 10 ^ g := by
  have power : (10 : ℚ) ^ g = 10 ^ g.toNat / 10 ^ (-g).toNat := by
    rw [← zpow_natCast, ← zpow_natCast, ← zpow_sub₀ (by norm_num)]
    congr 1
    omega
  rw [power, value_eq, Nat.cast_mul, Nat.cast_mul, Nat.cast_pow, Nat.cast_pow, Nat.cast_ofNat,
    div_div_div_eq]

theorem grid_den_pos (g : ℤ) : 0 < unitsPerOne * 10 ^ g.toNat :=
  Nat.mul_pos (Nat.cast_pos.mp unitsPerOne_pos) (Nat.pow_pos (by decide))

theorem abs_sub_grid (m : Magnitude) (a : ℕ) (g : ℤ) :
    |m.value - Decimal.value ⟨a, g⟩| = |m.value / 10 ^ g - a| * 10 ^ g := by
  have width := ten_zpow_pos g
  rw [Decimal.value, ← abs_of_pos width, ← abs_mul, abs_of_pos width, sub_mul,
    div_mul_cancel₀ _ width.ne']

theorem value_mem_uIcc (inside : (b : ℚ) ∈ Set.uIcc (m.value / 10 ^ g) a) :
    Decimal.value ⟨b, g⟩ ∈ Set.uIcc m.value (Decimal.value ⟨a, g⟩) := by
  have width := ten_zpow_pos g
  have scaled : m.value = m.value / 10 ^ g * 10 ^ g := (div_mul_cancel₀ _ width.ne').symm
  rw [Set.mem_uIcc, Decimal.value, Decimal.value, scaled]
  rcases Set.mem_uIcc.mp inside with ⟨low, high⟩ | ⟨low, high⟩
  · exact .inl ⟨mul_le_mul_of_nonneg_right low width.le, mul_le_mul_of_nonneg_right high width.le⟩
  · exact .inr ⟨mul_le_mul_of_nonneg_right low width.le, mul_le_mul_of_nonneg_right high width.le⟩

/-- The `k`-th multiple of the grid's width is read as the magnitude. -/
def ReadsOn (m : Magnitude) (g : ℤ) (k : ℕ) : Prop :=
  Decimal.nearest? ⟨k, g⟩ = some m

theorem ReadsOn.between (h : m.ReadsOn g a) (inside : (b : ℚ) ∈ Set.uIcc (m.value / 10 ^ g) a) :
    m.ReadsOn g b :=
  Decimal.nearest?_between h (value_mem_uIcc inside)

theorem onGrid?_cases (m : Magnitude) (g : ℤ) :
    ∃ num den : ℕ, 0 < den ∧ (num / den : ℚ) = m.value / 10 ^ g ∧
      (m.ReadsOn g (num / den) ∧ m.ReadsOn g (num / den + 1) ∧
          m.onGrid? g = some ⟨roundDiv num den, g⟩ ∨
        m.ReadsOn g (num / den) ∧ ¬m.ReadsOn g (num / den + 1) ∧
          m.onGrid? g = some ⟨num / den, g⟩ ∨
        ¬m.ReadsOn g (num / den) ∧ m.ReadsOn g (num / den + 1) ∧
          m.onGrid? g = some ⟨num / den + 1, g⟩ ∨
        ¬m.ReadsOn g (num / den) ∧ ¬m.ReadsOn g (num / den + 1) ∧ m.onGrid? g = none) := by
  refine ⟨_, _, grid_den_pos g, m.quotient_eq g, ?_⟩
  unfold ReadsOn
  -- What `nearest?` computes plays no part, and it must not be computed on a symbolic magnitude.
  generalize unfolded : onGrid? = f
  delta onGrid? at unfolded
  generalize Decimal.nearest? = reads at unfolded ⊢
  subst unfolded
  simp only
  split
  case h_1 below above => exact .inl ⟨of_decide_eq_true below, of_decide_eq_true above, rfl⟩
  case h_2 below above =>
    exact .inr (.inl ⟨of_decide_eq_true below, of_decide_eq_false above, rfl⟩)
  case h_3 below above =>
    exact .inr (.inr (.inl ⟨of_decide_eq_false below, of_decide_eq_true above, rfl⟩))
  case h_4 below above =>
    exact .inr (.inr (.inr ⟨of_decide_eq_false below, of_decide_eq_false above, rfl⟩))

theorem ReadsOn.neighbour (reads : m.ReadsOn g a) {num den : ℕ} (pos : 0 < den)
    (quotient : (num / den : ℚ) = m.value / 10 ^ g) :
    a ≤ num / den ∧ m.ReadsOn g (num / den) ∨
      num / den + 1 ≤ a ∧ m.ReadsOn g (num / den + 1) := by
  rcases Nat.lt_or_ge (num / den) a with above | below
  · have lt := div_lt_natDiv_succ num pos
    have cast : ((num / den + 1 : ℕ) : ℚ) ≤ a := Nat.cast_le.mpr above
    rw [quotient] at lt
    exact .inr ⟨above, reads.between (Set.mem_uIcc.mpr (.inl ⟨lt.le, cast⟩))⟩
  · have le : ((num / den : ℕ) : ℚ) ≤ num / den := Nat.cast_div_le
    have cast : (a : ℚ) ≤ (num / den : ℕ) := Nat.cast_le.mpr below
    rw [quotient] at le
    exact .inl ⟨below, reads.between (Set.mem_uIcc.mpr (.inr ⟨cast, le⟩))⟩

/-- If any point of a grid reads back, one is chosen there, and it is no farther. -/
theorem onGrid?_of_readsOn (reads : m.ReadsOn g a) :
    ∃ k, m.onGrid? g = some ⟨k, g⟩ ∧ |m.value / 10 ^ g - k| ≤ |m.value / 10 ^ g - a| := by
  obtain ⟨num, den, pos, quotient, cases⟩ := m.onGrid?_cases g
  have le : ((num / den : ℕ) : ℚ) ≤ num / den := Nat.cast_div_le
  have lt := div_lt_natDiv_succ num pos
  have side := reads.neighbour pos quotient
  rw [← quotient]
  rcases cases with ⟨-, -, found⟩ | ⟨-, notAbove, found⟩ | ⟨notBelow, -, found⟩ |
    ⟨notBelow, notAbove, -⟩
  · refine ⟨_, found, ?_⟩
    by_cases same : (a : ℤ) = roundDiv num den
    · rw [Int.ofNat_inj.mp same]
    · exact ((roundsTo_roundDiv pos).le_of_ne same).1
  · refine ⟨_, found, ?_⟩
    obtain ⟨below, -⟩ := side.resolve_right fun above => notAbove above.2
    have cast : (a : ℚ) ≤ (num / den : ℕ) := Nat.cast_le.mpr below
    rw [abs_of_nonneg, abs_of_nonneg] <;> linarith
  · refine ⟨_, found, ?_⟩
    obtain ⟨above, -⟩ := side.resolve_left fun below => notBelow below.2
    have cast : ((num / den + 1 : ℕ) : ℚ) ≤ a := Nat.cast_le.mpr above
    rw [abs_of_nonpos, abs_of_nonpos] <;> linarith
  · rcases side with ⟨-, below⟩ | ⟨-, above⟩
    · exact absurd below notBelow
    · exact absurd above notAbove

theorem units_pos (nonzero : m ≠ zero) : 0 < m.units := by
  apply Nat.pos_of_ne_zero
  intro null
  apply nonzero
  apply units_inj
  rw [null, units, zero, Nat.zero_mul]

theorem place_bounds (nonzero : m ≠ zero) {s : ℕ} (enough : unitsPerOne ≤ 10 ^ s) :
    10 ^ ((digitCount (m.units * 10 ^ s / unitsPerOne) : ℤ) - s - 1) ≤ m.value ∧
      m.value < 10 ^ ((digitCount (m.units * 10 ^ s / unitsPerOne) : ℤ) - s) := by
  have one_pos : 0 < unitsPerOne := Nat.cast_pos.mp unitsPerOne_pos
  have scaled : m.value = (m.units * 10 ^ s : ℕ) / unitsPerOne * 10 ^ (-s : ℤ) := by
    rw [value_eq, Nat.cast_mul, Nat.cast_pow, Nat.cast_ofNat, zpow_neg, zpow_natCast]
    field_simp
  have le : ((m.units * 10 ^ s / unitsPerOne : ℕ) : ℚ) ≤ (m.units * 10 ^ s : ℕ) / unitsPerOne :=
    Nat.cast_div_le
  have lt := div_lt_natDiv_succ (m.units * 10 ^ s) one_pos
  have scale_pos := ten_zpow_pos (-s)
  let whole : Decimal := ⟨m.units * 10 ^ s / unitsPerOne, -s⟩
  have positive : whole.digits ≠ 0 :=
    (Nat.div_pos (enough.trans (Nat.le_mul_of_pos_left _ (units_pos nonzero))) one_pos).ne'
  have place : (digitCount (m.units * 10 ^ s / unitsPerOne) : ℤ) - s = whole.point := rfl
  rw [place]
  constructor
  · have lower := (Decimal.pow_le_value_iff positive).mpr (Int.sub_one_lt_of_le le_rfl)
    apply lower.trans
    rw [scaled]
    exact mul_le_mul_of_nonneg_right le scale_pos.le
  · have upper : ((m.units * 10 ^ s / unitsPerOne + 1 : ℕ) : ℚ) ≤ 10 ^ (whole.text.length : ℤ) := by
      rw [zpow_natCast]
      exact_mod_cast whole.digits_lt_pow
    rw [scaled, Decimal.point, zpow_add₀ (by norm_num)]
    exact mul_lt_mul_of_pos_right (lt.trans_le upper) scale_pos

theorem unitsPerOne_le : unitsPerOne ≤ 10 ^ (324 : ℕ) := by
  decide +kernel

theorem leadingPlace_spec (nonzero : m ≠ zero) :
    10 ^ (m.leadingPlace - 1) ≤ m.value ∧ m.value < 10 ^ m.leadingPlace := by
  exact place_bounds (s := 324) nonzero unitsPerOne_le

theorem units_le_of_exponent_le (m : Magnitude) {top : ℕ} (le : m.exponent ≤ top) :
    (m.units : ℚ) ≤ (2 ^ 53 - 1) * 2 ^ top := by
  have mantissa : (m.mantissa : ℚ) ≤ 2 ^ 53 - 1 := by
    have le := Nat.le_sub_one_of_lt m.mantissa_lt
    have cast : (m.mantissa : ℚ) ≤ (2 ^ 53 - 1 : ℕ) := Nat.cast_le.mpr le
    norm_num at cast ⊢
    exact cast
  rw [units, Nat.cast_mul, Nat.cast_pow, Nat.cast_ofNat]
  exact mul_le_mul mantissa (pow_le_pow_right₀ one_le_two le) (by positivity) (by norm_num)

/-- At the exponent of a magnitude or a higher one, others are whole steps away. -/
theorem units_lt_gap_of_le (ne : m' ≠ m) (le : m.exponent ≤ m'.exponent) :
    (m.units : ℚ) < 2 ^ 53 * |(m.units : ℚ) - m'.units| := by
  obtain ⟨shift, exponent⟩ := Nat.exists_eq_add_of_le le
  have step_pos : (0 : ℚ) < 2 ^ m.exponent := by positivity
  have units' : m'.units = m'.mantissa * 2 ^ shift * 2 ^ m.exponent := by
    rw [units, exponent, Nat.pow_add]
    ring
  have other : (m.mantissa : ℤ) - (m'.mantissa * 2 ^ shift : ℕ) ≠ 0 := by
    intro same
    apply ne
    apply units_inj
    rw [units', units, Int.ofNat_inj.mp (sub_eq_zero.mp same)]
  have apart : (1 : ℚ) ≤ |(m.mantissa : ℚ) - (m'.mantissa * 2 ^ shift : ℕ)| := by
    exact_mod_cast Int.one_le_abs other
  have small : (m.mantissa : ℚ) < 2 ^ 53 := by exact_mod_cast m.mantissa_lt
  have gap : |(m.units : ℚ) - m'.units| =
      |(m.mantissa : ℚ) - (m'.mantissa * 2 ^ shift : ℕ)| * 2 ^ m.exponent := by
    rw [units', units, Nat.cast_mul, Nat.cast_mul _ (2 ^ m.exponent), Nat.cast_pow,
      Nat.cast_ofNat, ← sub_mul, abs_mul, abs_of_pos step_pos]
  rw [gap, units, Nat.cast_mul, Nat.cast_pow, Nat.cast_ofNat, ← mul_assoc]
  apply mul_lt_mul_of_pos_right _ step_pos
  linarith

theorem units_le_gap_of_lt (lt : m'.exponent < m.exponent) :
    (m.units : ℚ) ≤ 2 ^ 53 * |(m.units : ℚ) - m'.units| := by
  have large : 2 ^ 52 ≤ m.mantissa := m.normal.resolve_left (Nat.ne_zero_of_lt lt)
  have lower : 2 ^ 53 * 2 ^ m'.exponent ≤ m.units := by
    calc 2 ^ 53 * 2 ^ m'.exponent = 2 ^ 52 * 2 ^ (m'.exponent + 1) := by ring
      _ ≤ m.mantissa * 2 ^ m.exponent :=
        Nat.mul_le_mul large (Nat.pow_le_pow_right two_pos lt)
  have lower_cast : 2 ^ 53 * 2 ^ m'.exponent ≤ (m.units : ℚ) := by exact_mod_cast lower
  have upper := m'.units_le_of_exponent_le le_rfl
  have le_abs := le_abs_self ((m.units : ℚ) - m'.units)
  linarith

/-- Other magnitudes are at least a last binary place away. -/
theorem value_le_gap (ne : m' ≠ m) : m.value ≤ 2 ^ 53 * |m.value - m'.value| := by
  have one_pos := unitsPerOne_pos
  have gap : (m.units : ℚ) ≤ 2 ^ 53 * |(m.units : ℚ) - m'.units| := by
    rcases Nat.lt_or_ge m'.exponent m.exponent with lt | le
    · exact units_le_gap_of_lt lt
    · exact (units_lt_gap_of_le ne le).le
  rw [value_eq, value_eq, ← sub_div, abs_div, abs_of_pos one_pos, ← mul_div_assoc]
  exact div_le_div_of_nonneg_right gap one_pos.le

/-- Within half of a last binary place a magnitude is the nearest one, also to a number that is
    greater than the greatest of them. -/
theorem nearestTo_of_close (close : 2 ^ 54 * |q - m.value| < m.value) :
    q < rangeLimit ∧ m.NearestTo q := by
  have near := abs_nonneg (q - m.value)
  have farther : ∀ (x : Binary64) (v : ℚ), x.value? = some v → v ≠ m.value →
      |q - m.value| < |q - v| := by
    intro x v value ne
    match x, value with
    | .finite false m', rfl =>
      have other : m' ≠ m := fun same => ne (congrArg Magnitude.value same)
      have gap := value_le_gap other
      have triangle := abs_sub_le m.value q m'.value
      rw [abs_sub_comm m.value q] at triangle
      change _ < |q - m'.value|
      linarith
    | .finite true m', rfl =>
      have nonneg := m'.value_nonneg
      have below := neg_abs_le (q - m.value)
      have le_abs := le_abs_self (q - -m'.value)
      change _ < |q - -m'.value|
      linarith
  refine ⟨?_, ?_, ?_⟩
  · have le_abs := le_abs_self (q - m.value)
    have greatest := div_le_div_of_nonneg_right (m.units_le_of_exponent_le m.exponent_le)
      unitsPerOne_pos.le
    have limit_pos : (0 : ℚ) < 2 ^ 2045 / unitsPerOne := div_pos (by positivity) unitsPerOne_pos
    rw [← value_eq, mul_div_assoc] at greatest
    rw [← rangeLimit_eq, mul_div_assoc]
    generalize (2 ^ 2045 / unitsPerOne : ℚ) = scale at greatest limit_pos
    linarith
  · intro x v value
    by_cases same : v = m.value
    · rw [same]
    · exact (farther x v value same).le
  · intro x v value ne tie
    exact absurd tie (farther x v value ne).ne'

/-- A grid that is finer than half of a last binary place has a point that reads back. -/
theorem exists_readsOn (fine : 2 ^ 53 * 10 ^ g < m.value) : ∃ k, m.ReadsOn g k := by
  obtain ⟨num, den, pos, quotient, -⟩ := m.onGrid?_cases g
  refine ⟨roundDiv num den, Decimal.nearest?_eq_some_iff.mpr (nearestTo_of_close ?_)⟩
  have error : |(num / den : ℚ) - roundDiv num den| ≤ 1 / 2 := (roundsTo_roundDiv pos).error_le
  have width := ten_zpow_pos g
  rw [abs_sub_comm, abs_sub_grid, ← quotient]
  have scaled := mul_le_mul_of_nonneg_right error width.le
  linarith

theorem exists_readsOn_seventeen (nonzero : m ≠ zero) :
    ∃ k, m.ReadsOn (m.leadingPlace - 17) k := by
  apply exists_readsOn
  have lower := (leadingPlace_spec nonzero).1
  have places : m.leadingPlace - 1 = m.leadingPlace - 17 + 16 := by omega
  have width := ten_zpow_pos (m.leadingPlace - 17)
  rw [places, zpow_add₀ (by norm_num)] at lower
  norm_num at lower ⊢
  linarith

theorem readsOn_pow (reads : d.nearest? = some m) {j : ℕ}
    (inside : 10 ^ (g + j) ∈ Set.uIcc m.value d.value) :
    m.ReadsOn g (10 ^ j) ∧ |m.value - Decimal.value ⟨10 ^ j, g⟩| ≤ |m.value - d.value| := by
  have value : Decimal.value ⟨10 ^ j, g⟩ = 10 ^ (g + j) := by
    rw [Decimal.value, zpow_add₀ (by norm_num), zpow_natCast, Nat.cast_pow, Nat.cast_ofNat,
      mul_comm]
  rw [← value] at inside
  rw [abs_sub_comm m.value, abs_sub_comm m.value]
  exact ⟨Decimal.nearest?_between reads inside, Set.abs_sub_left_of_mem_uIcc inside⟩

/-- A decimal that reads back is matched by a point of the grid that has as many places up to the
    leading place as the decimal has digits. -/
theorem exists_readsOn_of_reads (nonzero : m ≠ zero) (reads : d.nearest? = some m) :
    ∃ k, m.ReadsOn (m.leadingPlace - digitCount d.digits) k ∧
      |m.value - Decimal.value ⟨k, m.leadingPlace - digitCount d.digits⟩| ≤
        |m.value - d.value| := by
  obtain ⟨lower, upper⟩ := leadingPlace_spec nonzero
  have count_pos : 0 < digitCount d.digits := d.length_text_pos
  by_cases small : d.value < 10 ^ (m.leadingPlace - 1)
  · have place : m.leadingPlace - 1 =
        m.leadingPlace - digitCount d.digits + (digitCount d.digits - 1 : ℕ) := by omega
    rw [place] at small lower
    exact ⟨_, readsOn_pow reads (Set.mem_uIcc.mpr (.inr ⟨small.le, lower⟩))⟩
  · by_cases large : 10 ^ m.leadingPlace ≤ d.value
    · have place : m.leadingPlace = m.leadingPlace - digitCount d.digits + digitCount d.digits :=
        (sub_add_cancel _ _).symm
      rw [place] at large upper
      exact ⟨_, readsOn_pow reads (Set.mem_uIcc.mpr (.inl ⟨upper.le, large⟩))⟩
    · have positive : d.digits ≠ 0 := by
        intro null
        apply small
        rw [Decimal.value, null, Nat.cast_zero, zero_mul]
        exact ten_zpow_pos _
      rw [not_lt, Decimal.pow_le_value_iff positive] at small
      rw [Decimal.pow_le_value_iff positive] at large
      have exponent : m.leadingPlace - digitCount d.digits = d.exponent := by
        have point : d.point = digitCount d.digits + d.exponent := rfl
        omega
      rw [exponent]
      exact ⟨d.digits, reads, le_rfl⟩

end Magnitude

namespace Decimal

theorem value_dropZeros (fuel : ℕ) (d : Decimal) : (dropZeros fuel d).value = d.value := by
  induction fuel generalizing d with
  | zero => rfl
  | succ fuel ih =>
    rw [dropZeros]
    split
    case isTrue zero =>
      have digits : (d.digits : ℚ) = (d.digits / 10 : ℕ) * 10 := by
        exact_mod_cast (Nat.div_mul_cancel (Nat.dvd_of_mod_eq_zero zero)).symm
      rw [ih, value_add, value, value, digits, zpow_one]
      ring
    case isFalse => rfl

theorem value_normalize (d : Decimal) : d.normalize.value = d.value := by
  rw [normalize]
  split
  case isTrue zero => rw [value, value, zero, Nat.cast_zero, zero_mul, zero_mul]
  case isFalse => exact value_dropZeros _ d

theorem digits_dropZeros_le (fuel : ℕ) (d : Decimal) : (dropZeros fuel d).digits ≤ d.digits := by
  induction fuel generalizing d with
  | zero => exact le_rfl
  | succ fuel ih =>
    rw [dropZeros]
    split
    case isTrue => exact (ih _).trans (Nat.div_le_self _ _)
    case isFalse => exact le_rfl

theorem digits_normalize_le (d : Decimal) : d.normalize.digits ≤ d.digits := by
  rw [normalize]
  split
  case isTrue => exact Nat.zero_le _
  case isFalse => exact digits_dropZeros_le _ d

theorem digits_dropZeros_ne_zero (fuel : ℕ) (nonzero : d.digits ≠ 0) :
    (dropZeros fuel d).digits ≠ 0 := by
  induction fuel generalizing d with
  | zero => exact nonzero
  | succ fuel ih =>
    rw [dropZeros]
    split
    · apply ih
      simp only
      omega
    · exact nonzero

theorem exponent_normalize (zero : d.normalize.digits = 0) : d.normalize.exponent = 0 := by
  rw [normalize] at zero ⊢
  split
  case isTrue => rfl
  case isFalse nonzero =>
    rw [if_neg nonzero] at zero
    exact absurd zero (digits_dropZeros_ne_zero _ nonzero)

theorem digits_dropZeros_pow {fuel j : ℕ} (le : j ≤ fuel) (g : ℤ) :
    (dropZeros fuel ⟨10 ^ j, g⟩).digits = 1 := by
  induction j generalizing fuel g with
  | zero => cases fuel <;> rfl
  | succ j ih =>
    obtain ⟨fuel, rfl⟩ := Nat.exists_eq_add_of_lt le
    have zero : 10 ^ (j + 1) % 10 = 0 := by rw [Nat.pow_succ, Nat.mul_mod_left]
    have tenth : 10 ^ (j + 1) / 10 = 10 ^ j := by
      rw [Nat.pow_succ, Nat.mul_div_cancel _ (by decide)]
    rw [dropZeros, if_pos zero, tenth]
    exact ih (Nat.le_add_right j fuel) _

theorem digitCount_le_iff {n j : ℕ} (pos : 0 < j) : digitCount n ≤ j ↔ n < 10 ^ j :=
  Nat.length_toDigits_le_iff (by decide) pos

theorem digitCount_normalize_le {k j : ℕ} (pos : 0 < j) (le : k ≤ 10 ^ j) (g : ℤ) :
    digitCount (normalize ⟨k, g⟩).digits ≤ j := by
  rw [digitCount_le_iff pos]
  rcases Nat.lt_or_eq_of_le le with lt | rfl
  · exact (digits_normalize_le _).trans_lt lt
  · have fuel : j ≤ digitCount (10 ^ j) := by
      have lt := digits_lt_pow ⟨10 ^ j, 0⟩
      exact ((Nat.pow_lt_pow_iff_right (by decide)).mp lt).le
    have nonzero : 10 ^ j ≠ 0 := (Nat.pow_pos (by decide)).ne'
    rw [normalize, if_neg nonzero, digits_dropZeros_pow fuel]
    exact Nat.one_lt_pow pos.ne' (by decide)

end Decimal

theorem findSome?_range {β : Type} {f : ℕ → Option β} {n : ℕ} {x : β}
    (found : (List.range n).findSome? f = some x) : ∃ i, f i = some x ∧ ∀ k < i, f k = none := by
  induction n with
  | zero => cases found
  | succ n ih =>
    rw [List.range_succ, List.findSome?_append] at found
    cases before : (List.range n).findSome? f with
    | some y =>
      rw [before] at found
      cases found
      exact ih before
    | none =>
      rw [before] at found
      have last : f n = some x := by simpa using found
      refine ⟨n, last, fun k lt => ?_⟩
      exact List.findSome?_eq_none_iff.mp before k (List.mem_range.mpr lt)

namespace Magnitude

theorem onGrid?_eq_some (found : m.onGrid? g = some d) :
    ∃ k : ℕ, d = ⟨k, g⟩ ∧ (k : ℚ) ≤ m.value / 10 ^ g + 1 := by
  obtain ⟨num, den, -, quotient, cases⟩ := m.onGrid?_cases g
  have le : ((num / den : ℕ) : ℚ) ≤ num / den := Nat.cast_div_le
  rw [found] at cases
  rw [← quotient]
  rcases cases with ⟨-, -, eq⟩ | ⟨-, -, eq⟩ | ⟨-, -, eq⟩ | ⟨-, -, eq⟩
  · refine ⟨roundDiv num den, Option.some.inj eq, ?_⟩
    rcases roundDiv_eq_or num den with down | up
    · rw [down]
      linarith
    · rw [up]
      push_cast
      linarith
  · refine ⟨num / den, Option.some.inj eq, ?_⟩
    linarith
  · refine ⟨num / den + 1, Option.some.inj eq, ?_⟩
    push_cast
    linarith
  · cases eq

/-- The shortest decimal is the choice on the coarsest grid that has one. -/
theorem shortest_eq (nonzero : m ≠ zero) : ∃ n k : ℕ,
    m.onGrid? (m.leadingPlace - (n + 1 : ℕ)) = some ⟨k, m.leadingPlace - (n + 1 : ℕ)⟩ ∧
      (∀ i < n, m.onGrid? (m.leadingPlace - (i + 1 : ℕ)) = none) ∧ k ≤ 10 ^ (n + 1) ∧
        m.shortest = Decimal.normalize ⟨k, m.leadingPlace - (n + 1 : ℕ)⟩ := by
  obtain ⟨k, reads⟩ := exists_readsOn_seventeen nonzero
  obtain ⟨_, last, -⟩ := onGrid?_of_readsOn reads
  rw [shortest]
  cases search : (List.range 17).findSome? fun n => m.onGrid? (m.leadingPlace - (n + 1 : ℕ)) with
  | none =>
    have missing := List.findSome?_eq_none_iff.mp search 16 (by decide)
    have seventeen : ((16 + 1 : ℕ) : ℤ) = 17 := rfl
    rw [seventeen, last] at missing
    cases missing
  | some d =>
    obtain ⟨n, found, before⟩ := findSome?_range search
    obtain ⟨k, rfl, le⟩ := onGrid?_eq_some found
    refine ⟨n, k, found, before, ?_, rfl⟩
    have upper := (leadingPlace_spec nonzero).2
    have width := ten_zpow_pos (m.leadingPlace - (n + 1 : ℕ))
    have scaled : m.value / 10 ^ (m.leadingPlace - (n + 1 : ℕ)) < (10 ^ (n + 1) : ℕ) := by
      rw [div_lt_iff₀ width, Nat.cast_pow, Nat.cast_ofNat, ← zpow_natCast,
        ← zpow_add₀ (by norm_num), add_sub_cancel]
      exact upper
    have lt : (k : ℚ) < (10 ^ (n + 1) + 1 : ℕ) := by
      rw [Nat.cast_succ]
      linarith
    exact Nat.le_of_lt_succ (Nat.cast_lt.mp lt)

/-- The decimal that is written for a magnitude: no other that reads back as it has fewer digits,
    and none with as many digits is nearer to it. -/
structure IsShortest (m : Magnitude) (d : Decimal) : Prop where
  reads : d.nearest? = some m
  fewest : ∀ d' : Decimal, d'.nearest? = some m → digitCount d.digits ≤ digitCount d'.digits
  closest : ∀ d' : Decimal, d'.nearest? = some m → digitCount d'.digits = digitCount d.digits →
    |m.value - d.value| ≤ |m.value - d'.value|

theorem isShortest_shortest_zero : zero.IsShortest zero.shortest := by
  have shortest_zero : zero.shortest = ⟨0, 0⟩ := by decide +kernel
  refine ⟨nearest?_shortest zero, ?fewest, ?closest⟩
  case fewest =>
    intro d' _
    rw [shortest_zero]
    exact d'.length_text_pos
  case closest =>
    intro d' _ _
    rw [shortest_zero, value_zero, Decimal.value, Nat.cast_zero, zero_mul, sub_self, abs_zero]
    exact abs_nonneg _

theorem le_digitCount_of_reads (nonzero : m ≠ zero) (reads : d.nearest? = some m) {n : ℕ}
    (coarser : ∀ i < n, m.onGrid? (m.leadingPlace - (i + 1 : ℕ)) = none) :
    n + 1 ≤ digitCount d.digits := by
  obtain ⟨a, readsOn, -⟩ := exists_readsOn_of_reads nonzero reads
  obtain ⟨_, chosen, -⟩ := onGrid?_of_readsOn readsOn
  have pos : 0 < digitCount d.digits := d.length_text_pos
  by_contra fewer
  have missing := coarser (digitCount d.digits - 1) (by omega)
  rw [Nat.sub_add_cancel pos, chosen] at missing
  cases missing

theorem isShortest_shortest (m : Magnitude) : m.IsShortest m.shortest := by
  by_cases null : m = zero
  · rw [null]
    exact isShortest_shortest_zero
  obtain ⟨n, k, chosen, coarser, le, eq⟩ := shortest_eq null
  have count : digitCount m.shortest.digits ≤ n + 1 := by
    rw [eq]
    exact Decimal.digitCount_normalize_le n.succ_pos le _
  refine ⟨nearest?_shortest m, ?fewest, ?closest⟩
  case fewest =>
    intro d' reads
    exact count.trans (le_digitCount_of_reads null reads coarser)
  case closest =>
    intro d' reads same
    -- With as many digits, the other decimal is matched on the grid of the choice.
    have grid : digitCount d'.digits = n + 1 :=
      le_antisymm (same.trans_le count) (le_digitCount_of_reads null reads coarser)
    obtain ⟨a, readsOn, le'⟩ := exists_readsOn_of_reads null reads
    rw [grid] at readsOn le'
    obtain ⟨k', chosen', nearest⟩ := onGrid?_of_readsOn readsOn
    rw [chosen] at chosen'
    cases chosen'
    apply le_trans _ le'
    rw [eq, Decimal.value_normalize, abs_sub_grid, abs_sub_grid]
    exact mul_le_mul_of_nonneg_right nearest (ten_zpow_pos _).le

end Magnitude

end PipeExpr
