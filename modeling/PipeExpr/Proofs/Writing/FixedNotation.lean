import PipeExpr.Expr.Source
import PipeExpr.Proofs.Number.Shortest

set_option autoImplicit false

namespace PipeExpr

-- Powers of natural numbers are the built-in ones, whatever else is in scope.
attribute [local instance (high)] instPowNat

/-- A numeral with its digits in their places, and with a point. -/
def fixedNotation (text : List Char) : List Char :=
  let fixed := if 'e' ∈ text then (Decimal.ofNumeral text).fixed else text
  if '.' ∈ fixed then fixed else fixed ++ ['.', '0']

/-- Digits on both sides of a point, and no zero in front that could be left out. -/
structure FixedPoint (whole fraction : List Char) : Prop where
  whole_ne_nil : whole ≠ []
  fraction_ne_nil : fraction ≠ []
  isDigit : ∀ c ∈ whole ++ fraction, c.isDigit
  leading : whole.head? = some '0' → whole = ['0']

theorem toDigits_mul_pow {n : ℕ} (pos : 0 < n) (k : ℕ) :
    Nat.toDigits 10 (n * 10 ^ k) = Nat.toDigits 10 n ++ List.replicate k '0' := by
  induction k with
  | zero => rw [Nat.pow_zero, Nat.mul_one, List.replicate_zero, List.append_nil]
  | succ k ih =>
    have product : n * 10 ^ (k + 1) = 10 * (n * 10 ^ k) + 0 := by
      rw [Nat.pow_succ]
      ring
    have zero : Nat.toDigits 10 0 = ['0'] := rfl
    have next := Nat.toDigits_append_toDigits (b := 10) (n := n * 10 ^ k) (d := 0) (by decide)
      (Nat.mul_pos pos (Nat.pow_pos (by decide))) (by decide)
    rw [product, ← next, ih, zero, List.append_assoc, ← List.replicate_succ']

namespace Decimal

variable {d : Decimal}

theorem positional_of_nonneg (large : 0 ≤ d.exponent) (zero : d.digits = 0 → d.exponent = 0) :
    d.positional = d.fixed ++ ['.', '0'] := by
  have digits : Nat.toDigits 10 (d.digits * 10 ^ d.exponent.toNat) =
      d.text ++ List.replicate d.exponent.toNat '0' := by
    rcases Nat.eq_zero_or_pos d.digits with null | pos
    · rw [zero null, Int.toNat_zero, Nat.pow_zero, Nat.mul_one, List.replicate_zero,
        List.append_nil, text]
    · exact toDigits_mul_pow pos _
  rw [positional, fixed, if_pos large, if_pos large, digits]

theorem point_mem_positional (d : Decimal) : '.' ∈ d.positional := by
  obtain ⟨whole, fraction, eq, -⟩ := d.positional_eq
  rw [eq]
  exact List.mem_append_right whole List.mem_cons_self

theorem point_notMem_fixed (large : 0 ≤ d.exponent) : '.' ∉ d.fixed := by
  rw [fixed, if_pos large]
  intro mem
  exact absurd (Text.isDigit_of_mem_toDigits '.' mem) (by decide)

/-- The compact numeral in fixed notation is the positional numeral. -/
theorem fixedNotation_compact (zero : d.digits = 0 → d.exponent = 0) :
    fixedNotation d.compact = d.positional := by
  have unmarked : 'e' ∉ d.positional := d.coefficient_positional.notMem
  have marked : 'e' ∈ d.scientific := by
    obtain ⟨coefficient, q, eq, -, -⟩ := d.scientific_eq
    rw [eq]
    exact List.mem_append_right coefficient List.mem_cons_self
  unfold compact
  split
  case isTrue => simp only [fixedNotation, if_neg unmarked, if_pos d.point_mem_positional]
  case isFalse =>
    simp only [fixedNotation, if_pos marked, ofNumeral_scientific]
    by_cases large : 0 ≤ d.exponent
    · rw [if_neg (point_notMem_fixed large), positional_of_nonneg large zero]
    · rw [← positional_of_neg large, if_pos d.point_mem_positional]

example : fixedNotation "1.2e+16".toList = "12000000000000000.0".toList := by decide

example : fixedNotation "1.5e-05".toList = "0.000015".toList := by decide

theorem head?_text (nonzero : d.digits ≠ 0) : d.text.head? ≠ some '0' := by
  intro head
  obtain ⟨others, eq⟩ := List.head?_eq_some_iff.mp head
  have value : Text.digitsValue d.text = Text.digitsValue others := by
    rw [eq]
    rfl
  have lower := pow_le_digits nonzero
  have upper := Text.digitsValue_lt others
  rw [← value, (digitRow_iff.mp d.row_text).2] at upper
  rw [eq, List.length_cons, Nat.add_sub_cancel] at lower
  exact absurd upper (not_lt.mpr lower)

theorem fixedPoint_positional (zero : d.digits = 0 → d.exponent = 0) :
    ∃ whole fraction, d.positional = whole ++ '.' :: fraction ∧ FixedPoint whole fraction := by
  unfold positional
  split
  case isTrue large =>
    have written := d.writtenAs_of_nonneg large
    refine ⟨_, ['0'], by simp, written.whole_ne_nil, written.fraction_ne_nil, written.isDigit, ?_⟩
    intro head
    rw [List.head?_append_of_ne_nil _ d.text_ne_nil] at head
    have null : d.digits = 0 := not_not.mp fun nonzero => head?_text nonzero head
    rw [zero null, text, null]
    rfl
  case isFalse small =>
    split
    case isTrue inner =>
      have written := d.writtenAs_of_point_pos small inner
      refine ⟨_, _, rfl, written.whole_ne_nil, written.fraction_ne_nil, written.isDigit, ?_⟩
      intro head
      have nonzero : d.digits ≠ 0 := fun null => small (zero null).ge
      rw [List.head?_take, if_neg (by omega)] at head
      exact absurd head (head?_text nonzero)
    case isFalse leading =>
      have written := d.writtenAs_of_point_nonpos leading
      exact ⟨['0'], _, rfl, written.whole_ne_nil, written.fraction_ne_nil, written.isDigit,
        fun _ => rfl⟩

end Decimal

theorem Pattern.Matches.exists_firstMatch {text : List Char} (known : Matches .decimal text)
    (rest : List Char) :
    ∃ more, FirstMatch (text ++ rest) (text ++ more) (.lexeme .decimal) := by
  have isPrefix : text <+: text ++ rest := List.prefix_append ..
  obtain ⟨n, length, le⟩ := known.length? isPrefix
  have noSymbol : Pattern.symbol.length? (text ++ rest) = none := by
    rw [length?_eq_none_iff]
    intro other known' isPrefix'
    have same := (PieceKind.Matches.lexeme known).eq_or_numeral (.lexeme known') isPrefix isPrefix'
    rcases same with same | ⟨-, same⟩ | ⟨-, same⟩ <;> cases same
  have earlier : all.takeWhile (· ≠ .decimal) = [.symbol] := by decide
  have first : first? (text ++ rest) = some (.decimal, n) := by
    rw [first?_eq_some_iff, earlier, List.forall_mem_singleton]
    exact ⟨length, noSymbol⟩
  have bound := (length?_bounds length).2
  refine ⟨rest.take (n - text.length), ?_⟩
  have parts : text ++ rest =
      text ++ rest.take (n - text.length) ++ rest.drop (n - text.length) := by
    rw [List.append_assoc, List.take_append_drop]
  have taken : (text ++ rest.take (n - text.length)).length = n := by
    rw [List.length_append] at bound ⊢
    rw [List.length_take]
    omega
  rw [← taken, parts] at first
  rw [parts]
  exact first?_append_iff.mp first

namespace Magnitude

theorem exponent_shortest (m : Magnitude) (zero : m.shortest.digits = 0) :
    m.shortest.exponent = 0 :=
  Decimal.exponent_normalize zero

theorem scan_positional (m : Magnitude) :
    scan (String.ofList m.shortest.positional) =
      .ok [⟨.value, .float (.finite false m), .start, String.ofList m.shortest.positional⟩] := by
  have stops : Stops Text.isDigit [] := nofun
  have first := m.first?_positional stops
  rw [Pattern.first?_append_iff] at first
  have step := Scanner.Step.token (l := .start) (a := ⟨.value, _⟩) (List.forall_mem_nil _) first
    m.read?_positional
  rw [List.nil_append, List.append_nil] at step
  rw [scan_eq_ok_iff, Scanner.ofSource, String.toList_ofList]
  exact ⟨_, _, .cons step (.done _), .finish (List.forall_mem_nil _)⟩

/-- A magnitude is written with digits on both sides of a point: its compact numeral in fixed
    notation. Both write the value of its shortest decimal. The compact one has a power of ten below
    `10 ^ -4`, unless the number is zero, and from `10 ^ 16` on. The other is scanned as one decimal
    numeral with the magnitude as its value, and whatever stands behind it, no integer is scanned in
    its place. -/
theorem numeral_fixed (m : Magnitude) :
    let x : Binary64 := .finite false m
    let compact := x.text.toList
    ∃ (text whole fraction : List Char) (d : Decimal),
      (Scalar.float x).numeral = .ok text ∧ text = fixedNotation compact ∧
      text = whole ++ '.' :: fraction ∧ FixedPoint whole fraction ∧
      m.IsShortest d ∧ (∀ v, Writes text v ↔ v = d.value) ∧ (∀ v, Writes compact v ↔ v = d.value) ∧
      ('e' ∈ compact ↔ d.value ≠ 0 ∧ (d.value < 1 / 10 ^ 4 ∨ 10 ^ 16 ≤ d.value)) ∧
      scan (String.ofList text) = .ok [⟨.value, .float x, .start, String.ofList text⟩] ∧
      ∀ rest, ∃ more, FirstMatch (text ++ rest) (text ++ more) (.lexeme .decimal) := by
  intro x compact
  have compact_eq : compact = m.shortest.compact := by
    simp [compact, x, Binary64.text, Binary64.sign]
  obtain ⟨whole, fraction, eq, fixed⟩ := Decimal.fixedPoint_positional m.exponent_shortest
  refine ⟨m.shortest.positional, whole, fraction, m.shortest, rfl, ?_, eq, fixed,
    m.isShortest_shortest, fun v => ?_, fun v => ?_, ?_, m.scan_positional, ?_⟩
  · rw [compact_eq, Decimal.fixedNotation_compact m.exponent_shortest]
  · exact (Writes.plain m.shortest.coefficient_positional).iff_eq
  · rw [compact_eq]
    exact m.shortest.writes_compact.iff_eq
  · rw [compact_eq]
    exact Decimal.mem_compact_iff m.exponent_shortest
  · obtain ⟨left, right⟩ := List.forall_mem_append.mp fixed.isDigit
    rw [eq]
    exact (Pattern.Matches.decimal (isDigits_of_isDigit fixed.whole_ne_nil left)
      (isDigits_of_isDigit fixed.fraction_ne_nil right)).exists_firstMatch

end Magnitude

end PipeExpr
