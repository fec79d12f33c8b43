import Mathlib.Algebra.Order.Field.Rat
import Mathlib.Tactic.Linarith
import Mathlib.Tactic.Positivity
import PipeExpr.Scalar

set_option autoImplicit false

namespace PipeExpr

-- Powers of natural numbers are the built-in ones, whatever else is in scope.
attribute [local instance (high)] instPowNat

namespace Magnitude

def value (m : Magnitude) : ℚ :=
  m.mantissa * 2 ^ ((m.exponent : ℤ) - 1074)

theorem unitsPerOne_pos : (0 : ℚ) < unitsPerOne := by
  unfold unitsPerOne
  -- The power is kept closed: it is too large to be written out.
  generalize 1074 = k
  exact Nat.cast_pos.mpr (Nat.two_pow_pos k)

theorem two_zpow_sub (e k : ℕ) : (2 : ℚ) ^ ((e : ℤ) - (k : ℤ)) = (2 ^ e : ℕ) / (2 ^ k : ℕ) := by
  rw [zpow_sub₀ two_ne_zero, zpow_natCast, zpow_natCast, Nat.cast_pow, Nat.cast_pow,
    Nat.cast_ofNat]

theorem value_eq (m : Magnitude) : m.value = m.units / unitsPerOne := by
  have scale := two_zpow_sub m.exponent 1074
  unfold value units unitsPerOne
  rw [Nat.cast_ofNat] at scale
  rw [scale, Nat.cast_mul]
  generalize 1074 = k
  exact (mul_div_assoc ..).symm

end Magnitude

def Binary64.value? : Binary64 → Option ℚ
  | finite negative m => some (if negative then -m.value else m.value)
  | infinite _ | notANumber => none

namespace Scalar

/-- The number that a scalar stands for. -/
def value? : Scalar → Option ℚ
  | bool b => some (if b then 1 else 0)
  | int n => some n
  | float x => x.value?
  | null | string _ => none

inductive Alike : Scalar → Scalar → Prop
  | null : Alike null null
  | string (s : String) : Alike (string s) (string s)
  | number {v w : Scalar} {q : ℚ} : v.value? = some q → w.value? = some q → Alike v w
  | infinite (negative : Bool) :
      Alike (float (.infinite negative)) (float (.infinite negative))

theorem value?_eq_some_iff {v : Scalar} {q : ℚ} :
    v.value? = some q ↔ ∃ n : ℤ, v.measure? = some (.finite n) ∧ n / Magnitude.unitsPerOne = q := by
  have one : (Magnitude.unitsPerOne : ℚ) ≠ 0 := Magnitude.unitsPerOne_pos.ne'
  have finite : ∀ (n : ℤ) (r : ℚ), n / Magnitude.unitsPerOne = r → (some r = some q ↔
      ∃ n' : ℤ, some (Measure.finite n) = some (.finite n') ∧ n' / Magnitude.unitsPerOne = q) := by
    rintro n r rfl
    constructor
    · intro eq
      exact ⟨n, rfl, Option.some_inj.mp eq⟩
    · rintro ⟨n', ⟨⟩, eq⟩
      rw [eq]
  match v with
  | null | string _ | float (.infinite _) | float .notANumber => exact ⟨nofun, nofun⟩
  | bool true => exact finite Magnitude.unitsPerOne 1 (by rw [Int.cast_natCast, div_self one])
  | bool false => exact finite 0 0 (by rw [Int.cast_zero, zero_div])
  | int n => exact finite _ n (by rw [Int.cast_mul, Int.cast_natCast, mul_div_cancel_right₀ _ one])
  | float (.finite false m) =>
    exact finite _ m.value (by rw [Int.cast_natCast, m.value_eq])
  | float (.finite true m) =>
    exact finite _ (-m.value) (by rw [Int.cast_neg, Int.cast_natCast, neg_div, m.value_eq])

theorem measure?_eq_infinite_iff {v : Scalar} {negative : Bool} :
    v.measure? = some (.infinite negative) ↔ v = float (.infinite negative) := by
  constructor
  · intro h
    match v, h with
    | float (.infinite _), rfl => rfl
  · rintro rfl
    rfl

theorem same_eq_true_iff {v w : Scalar} : v.same w = true ↔
    v = null ∧ w = null ∨ (∃ s, v = string s ∧ w = string s) ∨
      ∃ x, v.measure? = some x ∧ w.measure? = some x := by
  unfold same
  split
  case h_1 => exact ⟨fun _ => .inl ⟨rfl, rfl⟩, fun _ => rfl⟩
  case h_2 s t =>
    constructor
    · intro eq
      exact .inr (.inl ⟨s, rfl, congrArg string (beq_iff_eq.mp eq).symm⟩)
    · rintro (⟨⟨⟩, -⟩ | ⟨_, ⟨⟩, ⟨⟩⟩ | ⟨x, ⟨⟩, -⟩)
      exact beq_self_eq_true s
  case h_3 notNull notText =>
    constructor
    · intro same
      split at same
      case h_1 x y first second =>
        exact .inr (.inr ⟨x, first, by rw [second, beq_iff_eq.mp same]⟩)
      case h_2 => cases same
    · rintro (⟨rfl, rfl⟩ | ⟨s, rfl, rfl⟩ | ⟨x, first, second⟩)
      · exact (notNull rfl rfl).elim
      · exact (notText s s rfl rfl).elim
      · rw [first, second]
        exact beq_self_eq_true x

theorem same_iff_alike {v w : Scalar} : v.same w = true ↔ v.Alike w := by
  rw [same_eq_true_iff]
  constructor
  · rintro (⟨rfl, rfl⟩ | ⟨s, rfl, rfl⟩ | ⟨x, first, second⟩)
    · exact .null
    · exact .string s
    · cases x with
      | finite n =>
        exact .number (value?_eq_some_iff.mpr ⟨n, first, rfl⟩)
          (value?_eq_some_iff.mpr ⟨n, second, rfl⟩)
      | infinite negative =>
        rw [measure?_eq_infinite_iff.mp first, measure?_eq_infinite_iff.mp second]
        exact .infinite negative
  · intro alike
    cases alike with
    | null => exact .inl ⟨rfl, rfl⟩
    | string s => exact .inr (.inl ⟨s, rfl, rfl⟩)
    | infinite negative => exact .inr (.inr ⟨_, rfl, rfl⟩)
    | number first second =>
      obtain ⟨m, measure, eq⟩ := value?_eq_some_iff.mp first
      obtain ⟨n, measure', eq'⟩ := value?_eq_some_iff.mp second
      have same : (m : ℚ) = n :=
        (div_left_inj' Magnitude.unitsPerOne_pos.ne').mp (eq.trans eq'.symm)
      rw [Int.cast_inj.mp same] at measure
      exact .inr (.inr ⟨_, measure, measure'⟩)

end Scalar

end PipeExpr
