import PipeExpr.Proofs.Scanning.Numerals

set_option autoImplicit false

namespace PipeExpr

-- Powers of natural numbers are the built-in ones, whatever else is in scope.
attribute [local instance (high)] instPowNat

def DigitRow (text : List Char) (n : ℕ) : Prop :=
  text ≠ [] ∧ ∃ values, HasDigits text values ∧ digitsNumber values = n

inductive SignedRow : List Char → ℤ → Prop
  | plus {text : List Char} {n : ℕ} : DigitRow text n → SignedRow ('+' :: text) n
  | minus {text : List Char} {n : ℕ} : DigitRow text n → SignedRow ('-' :: text) (-n)

/-- A row of digits, or one on either side of a point. -/
inductive Coefficient : List Char → ℚ → Prop
  | whole {text : List Char} {n : ℕ} : DigitRow text n → Coefficient text n
  | pointed {whole fraction : List Char} {n k : ℕ} : DigitRow whole n → DigitRow fraction k →
      Coefficient (whole ++ '.' :: fraction) (n + k / 10 ^ fraction.length)

/-- The exact number that a numeral writes. -/
inductive Writes : List Char → ℚ → Prop
  | plain {text : List Char} {q : ℚ} : Coefficient text q → Writes text q
  | scaled {text power : List Char} {q : ℚ} {k : ℤ} : Coefficient text q → SignedRow power k →
      Writes (text ++ 'e' :: power) (q * 10 ^ k)

def signedValue : List Char → ℤ
  | '-' :: digits => -(Text.digitsValue digits : ℤ)
  | '+' :: digits => Text.digitsValue digits
  | digits => Text.digitsValue digits

/-- The decimal with the digits of a numeral. The power of ten goes into its exponent, together with
    the places behind the point. -/
def Decimal.ofNumeral (text : List Char) : Decimal :=
  let coefficient := text.takeWhile (· ≠ 'e')
  let d := decimalOf coefficient
  ⟨d.digits, d.exponent + signedValue (text.drop (coefficient.length + 1))⟩

variable {text power whole fraction : List Char} {q r : ℚ} {n : ℕ} {k : ℤ}

theorem digitRow_iff : DigitRow text n ↔ IsDigits text ∧ Text.digitsValue text = n := by
  constructor
  · rintro ⟨nonempty, values, digits, rfl⟩
    exact ⟨⟨nonempty, digits.isDigit⟩, digits.digitsValue_eq⟩
  · rintro ⟨digits, rfl⟩
    obtain ⟨values, has⟩ := digits.exists_values
    exact ⟨digits.ne_nil, values, has, has.digitsValue_eq.symm⟩

theorem IsDigits.row (h : IsDigits text) : DigitRow text (Text.digitsValue text) :=
  digitRow_iff.mpr ⟨h, rfl⟩

theorem IsDigits.notMem {c : Char} (h : IsDigits text) (noDigit : Text.isDigit c = false) :
    c ∉ text := by
  intro mem
  rw [h.inside c mem] at noDigit
  cases noDigit

theorem takeWhile_ne {c : Char} (h : c ∉ text) : text.takeWhile (· ≠ c) = text := by
  have before : ∀ d ∈ text, decide (d ≠ c) = true := by
    intro d mem
    rw [decide_eq_true_eq]
    rintro rfl
    exact h mem
  have all : (text ++ []).takeWhile (· ≠ c) = text := takeWhile_stops before nofun
  rwa [List.append_nil] at all

theorem decimalOf_digits (h : IsDigits text) : decimalOf text = ⟨Text.digitsValue text, 0⟩ := by
  have all := takeWhile_ne (h.notMem (c := '.') (by decide))
  simp only [decimalOf, all, List.drop_of_length_le (Nat.le_succ _), List.append_nil,
    List.length_nil, Int.natCast_zero, neg_zero]

theorem SignedRow.signedValue_eq (h : SignedRow power k) : signedValue power = k := by
  cases h with
  | plus row => rw [signedValue, (digitRow_iff.mp row).2]
  | minus row => rw [signedValue, (digitRow_iff.mp row).2]

theorem Coefficient.value_decimalOf (h : Coefficient text q) : (decimalOf text).value = q := by
  cases h with
  | whole row =>
    obtain ⟨digits, rfl⟩ := digitRow_iff.mp row
    rw [decimalOf_digits digits, Decimal.value, zpow_zero, mul_one]
  | pointed row row' =>
    obtain ⟨-, values, has, rfl⟩ := row
    obtain ⟨-, values', has', rfl⟩ := row'
    have both : HasPointedDigits _ values values' := ⟨_, _, rfl, has, has'⟩
    rw [both.value_decimalOf, pointedNumber, has'.length_eq]

theorem coefficient_pointed (digits : IsDigits whole) (digits' : IsDigits fraction) :
    Coefficient (whole ++ '.' :: fraction) (decimalOf (whole ++ '.' :: fraction)).value := by
  have written := Coefficient.pointed digits.row digits'.row
  rwa [written.value_decimalOf]

theorem Coefficient.notMem (h : Coefficient text q) : 'e' ∉ text := by
  cases h with
  | whole row => exact (digitRow_iff.mp row).1.notMem (by decide)
  | pointed row row' =>
    have left := (digitRow_iff.mp row).1.notMem (c := 'e') (by decide)
    have right := (digitRow_iff.mp row').1.notMem (c := 'e') (by decide)
    simp [left, right]

namespace Decimal

theorem value_add (digits : ℕ) (e k : ℤ) :
    value ⟨digits, e + k⟩ = value ⟨digits, e⟩ * 10 ^ k := by
  rw [value, value, zpow_add₀ (by norm_num), mul_assoc]

theorem ofNumeral_unmarked (h : 'e' ∉ text) : ofNumeral text = decimalOf text := by
  have zero : signedValue [] = 0 := rfl
  simp only [ofNumeral, takeWhile_ne h, List.drop_of_length_le (Nat.le_succ _), zero, add_zero]

theorem ofNumeral_marked (h : 'e' ∉ text) (power : List Char) :
    ofNumeral (text ++ 'e' :: power) =
      ⟨(decimalOf text).digits, (decimalOf text).exponent + signedValue power⟩ := by
  have before : (text ++ 'e' :: power).takeWhile (· ≠ 'e') = text := by
    rw [List.takeWhile_append, takeWhile_ne h, if_pos rfl, List.takeWhile_cons_of_neg (by decide),
      List.append_nil]
  simp only [ofNumeral, before, List.drop_length_add_append, List.drop_succ_cons, List.drop_zero]

end Decimal

theorem Writes.value_ofNumeral (h : Writes text q) : (Decimal.ofNumeral text).value = q := by
  cases h with
  | plain written => rw [Decimal.ofNumeral_unmarked written.notMem, written.value_decimalOf]
  | scaled written power =>
    rw [Decimal.ofNumeral_marked written.notMem, Decimal.value_add, written.value_decimalOf,
      power.signedValue_eq]

theorem Writes.iff_eq (h : Writes text q) : Writes text r ↔ r = q := by
  constructor
  · intro h'
    rw [← h.value_ofNumeral, ← h'.value_ofNumeral]
  · rintro rfl
    exact h

theorem isDigits_of_isDigit (nonempty : text ≠ []) (h : ∀ c ∈ text, c.isDigit) : IsDigits text :=
  ⟨nonempty, fun c mem => Text.isDigit_of_isDigit (h c mem)⟩

namespace Decimal

variable {d : Decimal}

theorem length_text_pos (d : Decimal) : 0 < d.text.length :=
  List.length_pos_iff.mpr d.text_ne_nil

theorem row_zeros_text (d : Decimal) (zeros : ℕ) :
    DigitRow (List.replicate zeros '0' ++ d.text) d.digits := by
  have digits : ∀ c ∈ List.replicate zeros '0' ++ d.text, c.isDigit := d.isDigit_zeros_append
  refine digitRow_iff.mpr ⟨isDigits_of_isDigit (by simp [d.text_ne_nil]) digits, ?_⟩
  rw [Text.digitsValue_eq digits, Nat.ofDigitChars_append, Nat.ofDigitChars_replicate_zero,
    Nat.mul_zero, ofDigitChars_text]

theorem row_text (d : Decimal) : DigitRow d.text d.digits :=
  d.row_zeros_text 0

theorem pow_le_digits (nonzero : d.digits ≠ 0) : 10 ^ (d.text.length - 1) ≤ d.digits := by
  by_contra small
  have short := Nat.le_sub_one_of_lt d.length_text_pos
  rcases Nat.eq_zero_or_pos (d.text.length - 1) with single | several
  · rw [single, pow_zero] at small
    omega
  · have le := (Nat.length_toDigits_le_iff (by decide) several).mpr (not_le.mp small)
    rw [← text] at le
    omega

theorem digits_lt_pow (d : Decimal) : d.digits < 10 ^ d.text.length :=
  (Nat.length_toDigits_le_iff (by decide) d.length_text_pos).mp le_rfl

theorem pow_le_value_iff (nonzero : d.digits ≠ 0) {k : ℤ} : 10 ^ k ≤ d.value ↔ k < d.point := by
  have scaled (j : ℤ) : (10 : ℚ) ^ j = 10 ^ (j - d.exponent) * 10 ^ d.exponent := by
    rw [← zpow_add₀ (by norm_num), sub_add_cancel]
  have scale_pos : (0 : ℚ) < 10 ^ d.exponent := zpow_pos (by norm_num) _
  have lower : (10 : ℚ) ^ (d.text.length - 1 : ℤ) ≤ d.digits := by
    have places : (d.text.length - 1 : ℤ) = (d.text.length - 1 : ℕ) := by
      have pos := d.length_text_pos
      omega
    rw [places, zpow_natCast]
    exact_mod_cast d.pow_le_digits nonzero
  have upper : (d.digits : ℚ) < 10 ^ (d.text.length : ℤ) := by
    rw [zpow_natCast]
    exact_mod_cast d.digits_lt_pow
  rw [scaled, value, mul_le_mul_iff_of_pos_right scale_pos, point]
  constructor
  · intro le
    have lt := lt_of_le_of_lt le upper
    rw [zpow_lt_zpow_iff_right₀ (by norm_num)] at lt
    omega
  · intro lt
    refine le_trans ?_ lower
    exact zpow_le_zpow_right₀ (by norm_num) (by omega)

/-- All digits in their places. A point is written only if there are digits behind it. -/
def fixed (d : Decimal) : List Char :=
  if 0 ≤ d.exponent then Nat.toDigits 10 (d.digits * 10 ^ d.exponent.toNat)
  else
    let places := (-d.exponent).toNat
    let padded := d.text.leftpad (places + 1) '0'
    padded.take (padded.length - places) ++ '.' :: padded.drop (padded.length - places)

theorem positional_of_neg (neg : ¬0 ≤ d.exponent) : d.positional = d.fixed := by
  rw [positional, fixed, if_neg neg, if_neg neg]
  split
  case isTrue inner =>
    have padded : d.text.leftpad ((-d.exponent).toNat + 1) '0' = d.text := by
      have enough : (-d.exponent).toNat + 1 - d.text.length = 0 := by
        rw [point] at inner
        omega
      rw [List.leftpad, enough, List.replicate_zero, List.nil_append]
    have split : d.text.length - (-d.exponent).toNat = d.point.toNat := by
      rw [point]
      omega
    simp only [padded, split]
  case isFalse leading =>
    have padded : d.text.leftpad ((-d.exponent).toNat + 1) '0' =
        '0' :: (List.replicate (-d.point).toNat '0' ++ d.text) := by
      have zeros : (-d.exponent).toNat + 1 - d.text.length = (-d.point).toNat + 1 := by
        rw [point] at leading ⊢
        omega
      rw [List.leftpad, zeros, List.replicate_succ, List.cons_append]
    have split : ('0' :: (List.replicate (-d.point).toNat '0' ++ d.text)).length -
        (-d.exponent).toNat = 1 := by
      rw [List.length_cons, List.length_append, List.length_replicate]
      rw [point] at leading ⊢
      omega
    simp only [padded, split]
    rfl

theorem decimalOf_fixed (neg : ¬0 ≤ d.exponent) : decimalOf d.fixed = d := by
  have row := d.row_zeros_text ((-d.exponent).toNat + 1 - d.text.length)
  obtain ⟨digits, value⟩ := digitRow_iff.mp row
  have long : (-d.exponent).toNat < (d.text.leftpad ((-d.exponent).toNat + 1) '0').length := by
    rw [List.length_leftpad]
    exact Nat.lt_of_lt_of_le (Nat.lt_succ_self _) (Nat.le_max_left ..)
  rw [← List.leftpad] at digits value
  rw [fixed, if_neg neg]
  simp only
  generalize d.text.leftpad ((-d.exponent).toNat + 1) '0' = padded at digits value long
  have exponent :
      -((padded.drop (padded.length - (-d.exponent).toNat)).length : ℤ) = d.exponent := by
    rw [List.length_drop]
    omega
  rw [decimalOf_append fun c mem => digits.inside c (List.mem_of_mem_take mem),
    List.take_append_drop, value, exponent]

theorem decimalOf_positional (large : 0 ≤ d.exponent) :
    decimalOf d.positional = ⟨d.digits * 10 ^ d.exponent.toNat * 10, -1⟩ := by
  have written := d.writtenAs_of_nonneg large
  have digits := (List.forall_mem_append.mp written.isDigit).1
  have eq : d.positional = d.text ++ List.replicate d.exponent.toNat '0' ++ '.' :: ['0'] := by
    rw [positional, if_pos large]
  rw [eq, decimalOf_append fun c mem => Text.isDigit_of_isDigit (digits c mem),
    Text.digitsValue_eq written.isDigit, Nat.ofDigitChars_append, Nat.ofDigitChars_append,
    ofDigitChars_text, Nat.ofDigitChars_replicate_zero, Nat.mul_comm _ d.digits,
    ← List.replicate_one, Nat.ofDigitChars_replicate_zero, pow_one, Nat.mul_comm 10]
  rfl

theorem value_decimalOf_positional (d : Decimal) : (decimalOf d.positional).value = d.value := by
  by_cases large : 0 ≤ d.exponent
  · have exponent : (10 : ℚ) ^ d.exponent = 10 ^ d.exponent.toNat := by
      rw [← zpow_natCast, Int.toNat_of_nonneg large]
    rw [decimalOf_positional large, value, value, exponent, zpow_neg_one]
    push_cast
    rw [mul_inv_cancel_right₀ (by norm_num)]
  · rw [positional_of_neg large, decimalOf_fixed large]

theorem coefficient_positional (d : Decimal) : Coefficient d.positional d.value := by
  obtain ⟨whole, fraction, eq, written⟩ := d.positional_eq
  obtain ⟨left, right⟩ := List.forall_mem_append.mp written.isDigit
  have digits := coefficient_pointed (isDigits_of_isDigit written.whole_ne_nil left)
    (isDigits_of_isDigit written.fraction_ne_nil right)
  rwa [← eq, value_decimalOf_positional] at digits

theorem signedRow_exponentText (e : ℤ) : SignedRow (exponentText e) e := by
  have row := row_zeros_text ⟨e.natAbs, 0⟩ (2 - (Nat.toDigits 10 e.natAbs).length)
  unfold exponentText
  by_cases neg : e < 0
  · have eq : e = -(e.natAbs : ℤ) := by omega
    rw [if_pos neg]
    conv_rhs => rw [eq]
    exact .minus row
  · have eq : e = (e.natAbs : ℤ) := by omega
    rw [if_neg neg]
    conv_rhs => rw [eq]
    exact .plus row

theorem scientific_eq (d : Decimal) : ∃ coefficient q,
    d.scientific = coefficient ++ 'e' :: exponentText (d.point - 1) ∧ Coefficient coefficient q ∧
      decimalOf coefficient = ⟨d.digits, 1 - d.text.length⟩ := by
  have row := d.row_text
  obtain ⟨digits, value⟩ := digitRow_iff.mp row
  unfold scientific
  generalize d.text = digitTexts at row digits value
  obtain ⟨c, others, rfl⟩ := List.exists_cons_of_ne_nil digits.ne_nil
  cases others with
  | nil =>
    refine ⟨[c], d.digits, rfl, .whole row, ?_⟩
    rw [decimalOf_digits digits, value]
    rfl
  | cons c' others =>
    obtain ⟨first, inside⟩ := List.forall_mem_cons.mp digits.inside
    have left : IsDigits [c] := ⟨List.cons_ne_nil c [], List.forall_mem_singleton.mpr first⟩
    have right : IsDigits (c' :: others) := ⟨List.cons_ne_nil c' others, inside⟩
    refine ⟨[c] ++ '.' :: c' :: others, _, rfl, coefficient_pointed left right, ?_⟩
    have places : -((c' :: others).length : ℤ) = 1 - (c :: c' :: others).length := by
      simp only [List.length_cons]
      omega
    have joined : [c] ++ c' :: others = c :: c' :: others := rfl
    rw [decimalOf_append left.inside, joined, value, places]

theorem ofNumeral_scientific (d : Decimal) : ofNumeral d.scientific = d := by
  obtain ⟨coefficient, q, eq, written, taken⟩ := d.scientific_eq
  have exponent : 1 - (d.text.length : ℤ) + (d.point - 1) = d.exponent := by
    rw [point]
    omega
  rw [eq, ofNumeral_marked written.notMem, taken, (signedRow_exponentText _).signedValue_eq,
    exponent]

theorem writes_scientific (d : Decimal) : Writes d.scientific d.value := by
  obtain ⟨coefficient, q, eq, written, -⟩ := d.scientific_eq
  have scaled := Writes.scaled written (signedRow_exponentText (d.point - 1))
  rw [← eq] at scaled
  have value := scaled.value_ofNumeral
  rw [ofNumeral_scientific] at value
  rwa [value]

theorem writes_compact (d : Decimal) : Writes d.compact d.value := by
  unfold compact
  split
  · exact .plain d.coefficient_positional
  · exact d.writes_scientific

theorem mem_compact_iff_point (d : Decimal) :
    'e' ∈ d.compact ↔ ¬(-4 ≤ d.point - 1 ∧ d.point - 1 < 16) := by
  unfold compact
  split
  case isTrue inside => exact iff_of_false d.coefficient_positional.notMem (not_not.mpr inside)
  case isFalse outside =>
    obtain ⟨coefficient, q, eq, -, -⟩ := d.scientific_eq
    rw [eq]
    exact iff_of_true (by simp) outside

/-- Where the compact numeral is a scientific one. -/
theorem mem_compact_iff (zero : d.digits = 0 → d.exponent = 0) :
    'e' ∈ d.compact ↔ d.value ≠ 0 ∧ (d.value < 1 / 10 ^ 4 ∨ 10 ^ 16 ≤ d.value) := by
  rw [mem_compact_iff_point]
  by_cases null : d.digits = 0
  · have point : d.point = 1 := by
      rw [Decimal.point, zero null, text, null]
      rfl
    have value : d.value = 0 := by rw [Decimal.value, null, Nat.cast_zero, zero_mul]
    simp [point, value]
  · have lower := pow_le_value_iff null (k := -4)
    have upper := pow_le_value_iff null (k := 16)
    have small : (10 : ℚ) ^ (-4 : ℤ) = 1 / 10 ^ 4 := by norm_num
    have large : (10 : ℚ) ^ (16 : ℤ) = 10 ^ 16 := by norm_num
    have value : d.value ≠ 0 :=
      mul_ne_zero (Nat.cast_ne_zero.mpr null) (zpow_ne_zero _ (by norm_num))
    rw [small, ← not_iff_not, not_le] at lower
    rw [large] at upper
    rw [and_iff_right value, lower, upper]
    omega

end Decimal

end PipeExpr
