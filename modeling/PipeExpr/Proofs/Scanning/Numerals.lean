import Mathlib.Data.Nat.Digits.Defs
import PipeExpr.Proofs.Number.Nearest
import PipeExpr.Proofs.Number.Numeral
import PipeExpr.Proofs.Scanning.Delivery

set_option autoImplicit false

namespace PipeExpr

/-- The characters of a text are digits of these values. -/
def HasDigits (text : List Char) (values : List ℕ) : Prop :=
  text.map Text.digitValue? = values.map some

instance (text : List Char) (values : List ℕ) : Decidable (HasDigits text values) :=
  inferInstanceAs (Decidable (_ = _))

/-- The number with these digits, the most significant first. -/
def digitsNumber (values : List ℕ) : ℕ :=
  Nat.ofDigits 10 values.reverse

/-- The exact value of the digits before a point and behind it. -/
def pointedNumber (whole fraction : List ℕ) : ℚ :=
  digitsNumber whole + digitsNumber fraction / 10 ^ fraction.length

def HasPointedDigits (text : List Char) (whole fraction : List ℕ) : Prop :=
  ∃ left right, text = left ++ '.' :: right ∧ HasDigits left whole ∧ HasDigits right fraction

/-- The value of a numeral that is in range. -/
inductive Pattern.Denotes : Pattern → List Char → Scalar → Prop
  | integer {text : List Char} {values : List ℕ} : HasDigits text values →
      text.length ≤ 4300 → Denotes .integer text (.int (digitsNumber values))
  | decimal {text : List Char} {whole fraction : List ℕ} {m : Magnitude} :
      HasPointedDigits text whole fraction →
        pointedNumber whole fraction < Magnitude.rangeLimit →
          m.NearestTo (pointedNumber whole fraction) →
            Denotes .decimal text (.float (.finite false m))

inductive Pattern.OutOfRange : Pattern → List Char → Prop
  | integer {text : List Char} {values : List ℕ} : HasDigits text values →
      4300 < text.length → OutOfRange .integer text
  | decimal {text : List Char} {whole fraction : List ℕ} : HasPointedDigits text whole fraction →
      Magnitude.rangeLimit ≤ pointedNumber whole fraction → OutOfRange .decimal text

variable {p : Pattern} {text left right : List Char} {values whole fraction : List ℕ} {v : Scalar}

theorem HasDigits.length_eq (h : HasDigits text values) : text.length = values.length := by
  simpa using congrArg List.length h

theorem HasDigits.append (h : HasDigits left whole) (h' : HasDigits right fraction) :
    HasDigits (left ++ right) (whole ++ fraction) := by
  rw [HasDigits, List.map_append, List.map_append, h, h']

theorem HasDigits.isDigit (h : HasDigits text values) : ∀ c ∈ text, Text.isDigit c = true := by
  intro c mem
  have value : Text.digitValue? c ∈ values.map some := h ▸ List.mem_map_of_mem mem
  obtain ⟨d, -, eq⟩ := List.mem_map.mp value
  rw [Text.isDigit, ← eq]
  rfl

theorem IsDigits.exists_values (h : IsDigits text) : ∃ values, HasDigits text values := by
  have inside := h.inside
  clear h
  induction text with
  | nil => exact ⟨[], rfl⟩
  | cons c text ih =>
    obtain ⟨first, others⟩ := List.forall_mem_cons.mp inside
    obtain ⟨d, value⟩ := Option.isSome_iff_exists.mp first
    obtain ⟨values, eq⟩ := ih others
    exact ⟨d :: values, by rw [HasDigits, List.map_cons, value, eq, List.map_cons]⟩

theorem IsDigits.not_hasPointedDigits (h : IsDigits text) :
    ¬HasPointedDigits text whole fraction := by
  rintro ⟨left, right, rfl, -, -⟩
  exact absurd (h.inside '.' (by simp)) (by decide)

theorem HasDigits.digitsValue_eq (h : HasDigits text values) :
    Text.digitsValue text = digitsNumber values := by
  rw [digitsNumber, Nat.ofDigits_eq_foldr, List.foldr_reverse, Text.digitsValue]
  suffices same : ∀ start, text.foldl (fun n c => 10 * n + (Text.digitValue? c).getD 0) start =
      values.foldl (fun n d => d + 10 * n) start from same 0
  intro start
  induction text generalizing values start with
  | nil =>
    rw [List.map_eq_nil_iff.mp h.symm]
    rfl
  | cons c text ih =>
    cases values with
    | nil => cases h
    | cons d values =>
      obtain ⟨first, others⟩ := List.cons.inj h
      rw [List.foldl_cons, List.foldl_cons, first, Option.getD_some, Nat.add_comm]
      exact ih others _

theorem digitsNumber_append (whole fraction : List ℕ) : digitsNumber (whole ++ fraction) =
    digitsNumber whole * 10 ^ fraction.length + digitsNumber fraction := by
  rw [digitsNumber, List.reverse_append, Nat.ofDigits_append, List.length_reverse, Nat.add_comm,
    Nat.mul_comm]
  rfl

theorem HasPointedDigits.value_decimalOf (h : HasPointedDigits text whole fraction) :
    (decimalOf text).value = pointedNumber whole fraction := by
  obtain ⟨left, right, rfl, digits, digits'⟩ := h
  rw [decimalOf_append digits.isDigit, Decimal.value, (digits.append digits').digitsValue_eq,
    digitsNumber_append, digits'.length_eq, zpow_neg, zpow_natCast, pointedNumber]
  push_cast
  field_simp

theorem Pattern.Denotes.read?_eq (h : p.Denotes text v) : p.read? text = some (.value, v) := by
  cases h with
  | integer digits short =>
    rw [read?, maxIntegerDigits, if_pos short, digits.digitsValue_eq]
  | decimal digits inside best =>
    rw [read?, Decimal.nearest?_eq_some_iff.mpr ⟨?_, ?_⟩, Option.map_some]
    · rwa [digits.value_decimalOf]
    · rwa [digits.value_decimalOf]

theorem Pattern.OutOfRange.read?_eq (h : p.OutOfRange text) : p.read? text = none := by
  cases h with
  | integer digits long => rw [read?, maxIntegerDigits, if_neg (Nat.not_le.mpr long)]
  | decimal digits outside =>
    rw [read?, Decimal.nearest?_eq_none_iff.mpr, Option.map_none]
    rwa [digits.value_decimalOf]

theorem Pattern.Matches.denotes_or_outOfRange (known : p.Matches text)
    (numeral : p = .integer ∨ p = .decimal) : (∃ v, p.Denotes text v) ∨ p.OutOfRange text := by
  cases known with
  | integer digits =>
    obtain ⟨values, has⟩ := digits.exists_values
    rcases Nat.lt_or_ge 4300 text.length with long | short
    · exact .inr (.integer has long)
    · exact .inl ⟨_, .integer has short⟩
  | decimal digits digits' =>
    obtain ⟨whole, has⟩ := digits.exists_values
    obtain ⟨fraction, has'⟩ := digits'.exists_values
    have both : HasPointedDigits _ whole fraction := ⟨_, _, rfl, has, has'⟩
    cases found : (decimalOf _).nearest? with
    | none =>
      have outside := Decimal.nearest?_eq_none_iff.mp found
      rw [both.value_decimalOf] at outside
      exact .inr (.decimal both outside)
    | some m =>
      have best := Decimal.nearest?_eq_some_iff.mp found
      rw [both.value_decimalOf] at best
      exact .inl ⟨_, .decimal both best.1 best.2⟩
  | symbol | quotation | word | root => rcases numeral with eq | eq <;> cases eq

theorem Pattern.Matches.eq_decimal (known : p.Matches text)
    (numeral : p = .integer ∨ p = .decimal) (digits : HasPointedDigits text whole fraction) :
    p = .decimal := by
  rcases numeral with rfl | rfl
  · cases known with
    | integer inside => exact absurd digits inside.not_hasPointedDigits
  · rfl

theorem Pattern.Matches.read?_numeral (known : p.Matches text)
    (numeral : p = .integer ∨ p = .decimal) :
    (∀ v, p.Denotes text v ↔ p.read? text = some (.value, v)) ∧
      (p.OutOfRange text ↔ p.read? text = none) := by
  rcases known.denotes_or_outOfRange numeral with ⟨v, denotes⟩ | outside
  · have value := denotes.read?_eq
    refine ⟨fun w => ⟨Denotes.read?_eq, fun value' => ?_⟩, OutOfRange.read?_eq, fun none => ?_⟩
    · rw [value] at value'
      cases value'
      exact denotes
    · rw [value] at none
      cases none
  · have none := outside.read?_eq
    refine ⟨fun w => ⟨Denotes.read?_eq, fun value => ?_⟩, OutOfRange.read?_eq, fun _ => outside⟩
    rw [none] at value
    cases value

theorem HasPointedDigits.denotes_zero (h : HasPointedDigits text whole fraction)
    (small : pointedNumber whole fraction ≤ 1 / 2 ^ 1075) :
    Pattern.Denotes .decimal text (.float (.finite false .zero)) := by
  have nonneg : 0 ≤ pointedNumber whole fraction := by
    unfold pointedNumber
    positivity
  have best := Magnitude.nearestTo_zero nonneg small
  have inside : pointedNumber whole fraction < Magnitude.rangeLimit := by
    have le_one : (1 / 2 ^ 1075 : ℚ) ≤ 1 :=
      (div_le_one (by positivity)).mpr (one_le_pow₀ one_le_two)
    exact lt_of_le_of_lt (small.trans le_one) Magnitude.one_lt_rangeLimit
  exact .decimal h inside best

namespace Scanner

variable {gap cs rest : List Char} {c : Char} {l : Location}

theorem next_firstMatch (blanks : IsBlanks gap)
    (first : FirstMatch (c :: cs ++ rest) (c :: cs) (.lexeme p)) :
    next ⟨gap ++ (c :: cs ++ rest), l⟩ = (match p.read? (c :: cs) with
      | some (kind, value) => .token ⟨kind, value, l.past gap, String.ofList (c :: cs)⟩
      | none => .failure ⟨c.toString, l.past gap, .outOfRange⟩,
        ⟨rest, (l.past gap).past (c :: cs)⟩) := by
  rw [← Location.advance_eq_past, ← Location.advance_eq_past]
  cases value : p.read? (c :: cs) with
  | none => exact (Step.outOfRange blanks first value).next_eq
  | some a => exact (Step.token (a := ⟨a.1, a.2⟩) blanks first value).next_eq

/-- A numeral that is scanned becomes a token with the number that it stands for. If it is out of
    range, it is reported at its first character. The scanner goes on behind it either way. Decimals
    that are too small for any other magnitude stand for zero. -/
theorem next_numeral (blanks : IsBlanks gap) (numeral : p = .integer ∨ p = .decimal)
    (first : FirstMatch (c :: cs ++ rest) (c :: cs) (.lexeme p)) :
    let s : Scanner := ⟨gap ++ (c :: cs ++ rest), l⟩
    let start := l.past gap
    let behind : Scanner := ⟨rest, start.past (c :: cs)⟩
    let error : ScanError := ⟨c.toString, start, .outOfRange⟩
    ((∃ v, p.Denotes (c :: cs) v) ∨ p.OutOfRange (c :: cs)) ∧
    (∀ v, p.Denotes (c :: cs) v ↔
      s.next = (.token ⟨.value, v, start, String.ofList (c :: cs)⟩, behind)) ∧
    (p.OutOfRange (c :: cs) ↔ s.next = (.failure error, behind)) ∧
    error.reasonText = "Numeric literal out of range" ∧
    ∀ whole fraction, HasPointedDigits (c :: cs) whole fraction →
      pointedNumber whole fraction ≤ 1 / 2 ^ 1075 →
        p.Denotes (c :: cs) (.float (.finite false .zero)) := by
  intro s start behind error
  cases first.known with
  | lexeme known =>
    obtain ⟨denotes, outOfRange⟩ := known.read?_numeral numeral
    have next : s.next = _ := next_firstMatch blanks first
    refine ⟨known.denotes_or_outOfRange numeral, fun v => ?_, ?_, rfl, ?_⟩
    · rw [denotes, next]
      cases p.read? (c :: cs) with
      | none => exact ⟨nofun, nofun⟩
      | some a =>
        obtain ⟨kind, w⟩ := a
        constructor <;> rintro ⟨⟩ <;> rfl
    · rw [outOfRange, next]
      cases p.read? (c :: cs) with
      | none => exact ⟨fun _ => rfl, fun _ => rfl⟩
      | some a => exact ⟨nofun, nofun⟩
    · intro whole fraction digits small
      obtain rfl := known.eq_decimal numeral digits
      exact digits.denotes_zero small

theorem next_numeral_middle :
    next ⟨[' ', '1', '\u0662', '3'], .start⟩ =
      (.token ⟨.value, .int 123, ⟨1, 1, 2⟩, "1\u06623"⟩, ⟨[], ⟨4, 1, 5⟩⟩) ∧
    next ⟨"9007199254740993.0 x".toList, .start⟩ =
      (.token ⟨.value, .float (.finite false ⟨2 ^ 52, 1075, by decide, by decide, by decide⟩),
        .start, "9007199254740993.0"⟩, ⟨[' ', 'x'], ⟨18, 1, 19⟩⟩) := by
  constructor
  · have blanks : IsBlanks [' '] := by decide
    have first : FirstMatch (['1', '\u0662', '3'] ++ []) ['1', '\u0662', '3'] (.lexeme .integer) :=
      Pattern.first?_append_iff.mp (by decide)
    have digits : HasDigits ['1', '\u0662', '3'] [1, 2, 3] := by decide
    obtain ⟨-, denotes, -⟩ := next_numeral (l := .start) blanks (.inl rfl) first
    exact (denotes (.int 123)).mp (.integer digits (by decide))
  · have first : FirstMatch ("9007199254740993.0".toList ++ [' ', 'x']) "9007199254740993.0".toList
        (.lexeme .decimal) := Pattern.first?_append_iff.mp (by decide)
    have digits : HasPointedDigits "9007199254740993.0".toList
        [9, 0, 0, 7, 1, 9, 9, 2, 5, 4, 7, 4, 0, 9, 9, 3] [0] :=
      ⟨"9007199254740993".toList, ['0'], by decide, by decide, by decide⟩
    have found : (decimalOf "9007199254740993.0".toList).nearest? =
        some ⟨2 ^ 52, 1075, by decide, by decide, by decide⟩ := by decide +kernel
    obtain ⟨-, denotes, -⟩ :=
      next_numeral (l := .start) (List.forall_mem_nil _) (.inr rfl) first
    have best := Decimal.nearest?_eq_some_iff.mp found
    rw [digits.value_decimalOf] at best
    exact (denotes _).mp (.decimal digits best.1 best.2)

end Scanner

end PipeExpr
