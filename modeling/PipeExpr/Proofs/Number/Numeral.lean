import PipeExpr.Proofs.Number.Rounding
import PipeExpr.Token.Lexeme

set_option autoImplicit false

namespace PipeExpr

namespace Text

theorem digitValue?_of_isDigit {c : Char} (h : c.isDigit) :
    digitValue? c = some (c.toNat - '0'.toNat) := by
  obtain ⟨low, high⟩ := Char.isDigit_iff_toNat.mp h
  have first : (decide (0x30 ≤ c.toNat) && decide (c.toNat < 0x30 + 10)) = true := by
    rw [Bool.and_eq_true, decide_eq_true_eq, decide_eq_true_eq]
    exact ⟨low, Nat.lt_succ_of_le high⟩
  obtain ⟨others, zeros⟩ : ∃ others, digitZeros = 0x30 :: others := ⟨_, rfl⟩
  rw [digitValue?, zeros, List.find?_cons, first]
  rfl

theorem isDigit_of_isDigit {c : Char} (h : c.isDigit) : isDigit c = true := by
  rw [isDigit, digitValue?_of_isDigit h]
  rfl

theorem digitsValue_eq {cs : List Char} (h : ∀ c ∈ cs, c.isDigit) :
    digitsValue cs = Nat.ofDigitChars 10 cs 0 := by
  rw [digitsValue, Nat.ofDigitChars_eq_foldl]
  suffices same : ∀ value, cs.foldl (fun n c => 10 * n + (digitValue? c).getD 0) value =
      cs.foldl (fun n c => 10 * n + (c.toNat - '0'.toNat)) value from same 0
  intro value
  induction cs generalizing value with
  | nil => rfl
  | cons c cs ih =>
    have head := digitValue?_of_isDigit (h c List.mem_cons_self)
    rw [List.foldl_cons, List.foldl_cons, head, Option.getD_some]
    exact ih (fun c mem => h c (List.mem_cons_of_mem _ mem)) _

theorem isDigit_of_mem_toDigits {n : Nat} : ∀ c ∈ Nat.toDigits 10 n, c.isDigit :=
  fun _ mem => Nat.isDigit_of_mem_toDigits (by decide) (by decide) mem

theorem digitsValue_lt (cs : List Char) : digitsValue cs < 10 ^ cs.length := by
  rw [digitsValue]
  suffices bound : ∀ value, cs.foldl (fun n c => 10 * n + (digitValue? c).getD 0) value <
      (value + 1) * 10 ^ cs.length by simpa using bound 0
  intro value
  induction cs generalizing value with
  | nil => simp
  | cons c cs ih =>
    have digit : (digitValue? c).getD 0 < 10 := by
      cases h : digitValue? c with
      | none => decide
      | some d => exact digitValue?_lt h
    rw [List.foldl_cons, List.length_cons, Nat.pow_succ']
    calc
      _ < (10 * value + (digitValue? c).getD 0 + 1) * 10 ^ cs.length := ih _
      _ ≤ ((value + 1) * 10) * 10 ^ cs.length := Nat.mul_le_mul_right _ (by omega)
      _ = (value + 1) * (10 * 10 ^ cs.length) := Nat.mul_assoc ..

theorem digitsValue_toDigits (n : Nat) : digitsValue (Nat.toDigits 10 n) = n := by
  rw [digitsValue_eq isDigit_of_mem_toDigits, Nat.ofDigitChars_ten_toDigits]

end Text

theorem decimalOf_append {whole fraction : List Char}
    (h : ∀ c ∈ whole, Text.isDigit c = true) :
    decimalOf (whole ++ '.' :: fraction) =
      ⟨Text.digitsValue (whole ++ fraction), -(fraction.length : Int)⟩ := by
  have noPoint : ∀ c ∈ whole, decide (c ≠ '.') = true := by
    intro c mem
    rw [decide_eq_true_eq]
    rintro rfl
    exact absurd (h _ mem) (by decide)
  have atPoint : (whole ++ '.' :: fraction).takeWhile (· ≠ '.') = whole := by
    rw [List.takeWhile_append_of_pos noPoint, List.takeWhile_cons_of_neg (by decide),
      List.append_nil]
  have behind : (whole ++ '.' :: fraction).drop (whole.length + 1) = fraction := by
    rw [List.drop_length_add_append]
    rfl
  simp only [decimalOf, atPoint, behind]

namespace Decimal

theorem nearest?_shifts (digits k : Nat) (exponent : Int) :
    nearest? ⟨digits * 10 ^ k, exponent⟩ = nearest? ⟨digits, exponent + k⟩ := by
  induction k generalizing exponent with
  | zero => rw [Nat.pow_zero, Nat.mul_one, Int.natCast_zero, Int.add_zero]
  | succ k ih =>
    have next : exponent + 1 + (k : Int) = exponent + (k + 1 : Nat) := by omega
    rw [Nat.pow_succ, ← Nat.mul_assoc, nearest?_shift, ih, next]

theorem text_ne_nil (d : Decimal) : d.text ≠ [] :=
  Nat.toDigits_ne_nil

theorem isDigit_text (d : Decimal) : ∀ c ∈ d.text, c.isDigit :=
  Text.isDigit_of_mem_toDigits

theorem isDigit_zeros {k : Nat} : ∀ c ∈ List.replicate k '0', c.isDigit := by
  intro c mem
  rw [List.eq_of_mem_replicate mem]
  rfl

theorem isDigit_zeros_append (d : Decimal) {k : Nat} :
    ∀ c ∈ List.replicate k '0' ++ d.text, c.isDigit :=
  List.forall_mem_append.mpr ⟨isDigit_zeros, d.isDigit_text⟩

theorem isDigit_append_zeros (d : Decimal) {k : Nat} :
    ∀ c ∈ d.text ++ List.replicate k '0', c.isDigit :=
  List.forall_mem_append.mpr ⟨d.isDigit_text, isDigit_zeros⟩

/-- Digits on both sides of a point that read as the decimal does. -/
structure WrittenAs (d : Decimal) (whole fraction : List Char) : Prop where
  whole_ne_nil : whole ≠ []
  fraction_ne_nil : fraction ≠ []
  isDigit : ∀ c ∈ whole ++ fraction, c.isDigit
  nearest?_eq : nearest? ⟨Nat.ofDigitChars 10 (whole ++ fraction) 0, -(fraction.length : Int)⟩ =
    d.nearest?

theorem ofDigitChars_text (d : Decimal) : Nat.ofDigitChars 10 d.text 0 = d.digits :=
  Nat.ofDigitChars_ten_toDigits

theorem writtenAs_of_nonneg (d : Decimal) (large : 0 ≤ d.exponent) :
    d.WrittenAs (d.text ++ List.replicate d.exponent.toNat '0') ['0'] := by
  have zeros : d.text ++ List.replicate d.exponent.toNat '0' ++ ['0'] =
      d.text ++ List.replicate (d.exponent.toNat + 1) '0' := by
    rw [List.append_assoc, ← List.replicate_succ']
  have exponent : -(['0'].length : Int) + (d.exponent.toNat + 1 : Nat) = d.exponent := by
    simp only [List.length_singleton]
    omega
  refine ⟨by simp [d.text_ne_nil], by simp, ?_, ?_⟩
  · rw [zeros]
    exact d.isDigit_append_zeros
  · rw [zeros, Nat.ofDigitChars_append, ofDigitChars_text, Nat.ofDigitChars_replicate_zero,
      Nat.mul_comm, nearest?_shifts, exponent]

theorem writtenAs_of_point_pos (d : Decimal) (small : ¬0 ≤ d.exponent) (inner : 0 < d.point) :
    d.WrittenAs (d.text.take d.point.toNat) (d.text.drop d.point.toNat) := by
  have inside : d.point.toNat < d.text.length := by
    rw [point] at inner ⊢
    omega
  have exponent : -((d.text.drop d.point.toNat).length : Int) = d.exponent := by
    rw [List.length_drop]
    rw [point] at inner ⊢
    omega
  refine ⟨?_, ?_, ?_, ?_⟩
  · rw [ne_eq, List.take_eq_nil_iff, not_or]
    exact ⟨by omega, d.text_ne_nil⟩
  · rw [ne_eq, List.drop_eq_nil_iff]
    omega
  · rw [List.take_append_drop]
    exact d.isDigit_text
  · rw [List.take_append_drop, ofDigitChars_text, exponent]

theorem writtenAs_of_point_nonpos (d : Decimal) (leading : ¬0 < d.point) :
    d.WrittenAs ['0'] (List.replicate (-d.point).toNat '0' ++ d.text) := by
  have zeros : ['0'] ++ (List.replicate (-d.point).toNat '0' ++ d.text) =
      List.replicate (1 + (-d.point).toNat) '0' ++ d.text := by
    rw [← List.append_assoc, ← List.replicate_one, List.replicate_append_replicate]
  have exponent :
      -((List.replicate (-d.point).toNat '0' ++ d.text).length : Int) = d.exponent := by
    rw [List.length_append, List.length_replicate]
    rw [point] at leading ⊢
    omega
  refine ⟨by simp, by simp [d.text_ne_nil], ?_, ?_⟩
  · rw [zeros]
    exact d.isDigit_zeros_append
  · rw [exponent, zeros, Nat.ofDigitChars_append, Nat.ofDigitChars_replicate_zero, Nat.mul_zero,
      ofDigitChars_text]

theorem positional_eq (d : Decimal) :
    ∃ whole fraction, d.positional = whole ++ '.' :: fraction ∧ d.WrittenAs whole fraction := by
  unfold positional
  split
  case isTrue large => exact ⟨_, _, by simp, d.writtenAs_of_nonneg large⟩
  case isFalse small =>
    split
    case isTrue inner => exact ⟨_, _, rfl, d.writtenAs_of_point_pos small inner⟩
    case isFalse leading => exact ⟨_, _, rfl, d.writtenAs_of_point_nonpos leading⟩

/-- The positional numeral of a decimal reads back as the decimal does. -/
theorem nearest?_decimalOf_positional (d : Decimal) :
    (decimalOf d.positional).nearest? = d.nearest? := by
  obtain ⟨whole, fraction, eq, written⟩ := d.positional_eq
  have inWhole : ∀ c ∈ whole, Text.isDigit c = true := fun c mem =>
    Text.isDigit_of_isDigit ((List.forall_mem_append.mp written.isDigit).1 c mem)
  rw [eq, decimalOf_append inWhole, Text.digitsValue_eq written.isDigit, written.nearest?_eq]

end Decimal

end PipeExpr
