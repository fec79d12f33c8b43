import PipeExpr.Proofs.Expr.Regular
import PipeExpr.Proofs.Number.Numeral
import PipeExpr.Proofs.Scanning.Lexing

set_option autoImplicit false

namespace PipeExpr
open Terminal (symbol)

variable {rest : List Char} {as : List Terminal}

/-- The text goes on with no character of the class, or not at all. -/
def Stops (p : Char → Bool) (rest : List Char) : Prop :=
  ∀ c, rest.head? = some c → p c = false

theorem takeWhile_stops {p : Char → Bool} {text : List Char} (inside : ∀ c ∈ text, p c = true)
    (stops : Stops p rest) : (text ++ rest).takeWhile p = text := by
  rw [List.takeWhile_append_of_pos inside]
  cases rest with
  | nil => rw [List.takeWhile_nil, List.append_nil]
  | cons c rest =>
    have outside : ¬p c = true := by rw [stops c rfl]; decide
    rw [List.takeWhile_cons_of_neg outside, List.append_nil]

namespace Text

theorem isDigit_iff_of_lt {c : Char} (ascii : c.toNat < 0x80) : isDigit c = c.isDigit := by
  rw [Bool.eq_iff_iff]
  refine ⟨fun h => ?_, isDigit_of_isDigit⟩
  obtain ⟨value, h⟩ := Option.isSome_iff_exists.mp h
  rw [digitValue?, Option.map_eq_some_iff] at h
  obtain ⟨z, found, -⟩ := h
  have inside := List.find?_some found
  have zeros : ∀ z ∈ digitZeros, z = 0x30 ∨ 0x80 ≤ z := by decide
  have known := zeros z (List.mem_of_find?_eq_some found)
  simp only [Bool.and_eq_true, decide_eq_true_eq] at inside
  rw [Char.isDigit_iff_toNat]
  show 0x30 ≤ c.toNat ∧ c.toNat ≤ 0x39
  omega

theorem isBlank_eq_false {c : Char} (visible : 0x21 ≤ c.toNat) (ascii : c.toNat < 0x80) :
    isBlank c = false := by
  simp only [isBlank, Bool.or_eq_false_iff, Bool.and_eq_false_iff, decide_eq_false_iff_not,
    beq_eq_false_iff_ne, ne_eq]
  omega

end Text

theorem isStructural_eq_false {p : Char → Bool} {c : Char} (h : p c = true)
    (symbols : ['(', ')', '[', ']', '{', '}', '|', '.', ',', ':'].any p = false) :
    isStructural c = false := by
  rw [← Bool.not_eq_true]
  intro structural
  exact List.any_eq_false.mp symbols c (List.contains_iff_mem.mp structural) h

theorem isBlank_of_isStructural {c : Char} (h : isStructural c = true) :
    Text.isBlank c = false := by
  rw [← Bool.not_eq_true]
  intro blank
  rw [isStructural_eq_false blank rfl] at h
  cases h

theorem toNat_of_isWordStart {c : Char} (h : isWordStart c = true) :
    (0x41 ≤ c.toNat ∧ c.toNat ≤ 0x5a) ∨ (0x61 ≤ c.toNat ∧ c.toNat ≤ 0x7a) ∨ c.toNat = 0x5f := by
  rw [isWordStart, Bool.or_eq_true, beq_iff_eq] at h
  rcases h with letter | rfl
  · have upperOrLower : (c.isUpper || c.isLower) = true := letter
    rcases Bool.or_eq_true_iff.mp upperOrLower with upper | lower
    · exact .inl (of_decide_eq_true upper)
    · obtain ⟨low, high⟩ := Bool.and_eq_true_iff.mp lower
      exact .inr (.inl ⟨of_decide_eq_true low, of_decide_eq_true high⟩)
  · exact .inr (.inr rfl)

theorem isDigit_of_isWordStart {c : Char} (h : isWordStart c = true) :
    Text.isDigit c = false := by
  have range := toNat_of_isWordStart h
  rw [Text.isDigit_iff_of_lt (by omega), ← Bool.not_eq_true, Char.isDigit_iff_toNat]
  show ¬(0x30 ≤ c.toNat ∧ c.toNat ≤ 0x39)
  omega

theorem isBlank_of_isDigit {c : Char} (h : Text.isDigit c = true) : Text.isBlank c = false := by
  obtain ⟨value, h⟩ := Option.isSome_iff_exists.mp h
  rw [Text.digitValue?, Option.map_eq_some_iff] at h
  obtain ⟨z, found, -⟩ := h
  have inside := List.find?_some found
  -- No block of digits meets a stretch of white space.
  have zeros : ∀ z ∈ Text.digitZeros, (0x20 < z ∧ z + 10 < 0x85) ∨ (0xa0 < z ∧ z + 10 < 0x1680) ∨
      (0x1680 < z ∧ z + 10 < 0x2000) ∨ 0x3000 < z := by decide
  have known := zeros z (List.mem_of_find?_eq_some found)
  simp only [Bool.and_eq_true, decide_eq_true_eq] at inside
  simp only [Text.isBlank, Bool.or_eq_false_iff, Bool.and_eq_false_iff, decide_eq_false_iff_not,
    beq_eq_false_iff_ne, ne_eq]
  omega

theorem isBlank_of_isWordStart {c : Char} (h : isWordStart c = true) : Text.isBlank c = false := by
  have range := toNat_of_isWordStart h
  exact Text.isBlank_eq_false (by omega) (by omega)

theorem isBlank_of_isWordPart {c : Char} (h : isWordPart c = true) : Text.isBlank c = false := by
  rw [isWordPart, Char.isAlphanum, Bool.or_right_comm, Bool.or_eq_true] at h
  rcases h with start | digit
  · exact isBlank_of_isWordStart start
  · exact isBlank_of_isDigit (Text.isDigit_of_isDigit digit)

namespace Pattern

theorem digitRun_append {digits : List Char} (inside : ∀ c ∈ digits, c.isDigit = true)
    (stops : Stops Text.isDigit rest) : digitRun (digits ++ rest) = digits.length := by
  rw [digitRun, takeWhile_stops (fun c mem => Text.isDigit_of_isDigit (inside c mem)) stops]

theorem digitRun_eq_zero {c : Char} (h : Text.isDigit c = false) (cs : List Char) :
    digitRun (c :: cs) = 0 := by
  have outside : ¬Text.isDigit c = true := by rw [h]; decide
  rw [digitRun, List.takeWhile_cons_of_neg outside]
  rfl

theorem length?_symbol {c : Char} (h : isStructural c = false) (cs : List Char) :
    symbol.length? (c :: cs) = none := by
  simp only [length?, h, Bool.false_eq_true, if_false]

theorem length?_decimal_of_digitRun {cs : List Char} (h : digitRun cs = 0) :
    decimal.length? cs = none := by
  simp only [length?, h, true_or, if_true]
  split <;> rfl

theorem length?_integer_of_digitRun {cs : List Char} (h : digitRun cs = 0) :
    integer.length? cs = none := by
  simp only [length?, h, if_true]

theorem first?_symbol {c : Char} (h : isStructural c = true) (cs : List Char) :
    first? (c :: cs) = some (symbol, 1) := by
  simp only [first?, all, List.findSome?_cons, length?, h, if_true, Option.map_some]

theorem length?_symbol_digits {digits : List Char} (inside : ∀ c ∈ digits, c.isDigit = true)
    (nonempty : digits ≠ []) : symbol.length? (digits ++ rest) = none := by
  obtain ⟨d, ds, rfl⟩ := List.exists_cons_of_ne_nil nonempty
  exact length?_symbol (isStructural_eq_false (inside d List.mem_cons_self) rfl) _

theorem first?_decimal {whole fraction : List Char}
    (digits : ∀ c ∈ whole ++ fraction, c.isDigit = true) (wholeNonempty : whole ≠ [])
    (fractionNonempty : fraction ≠ []) (stops : Stops Text.isDigit rest) :
    first? (whole ++ '.' :: fraction ++ rest) =
      some (decimal, (whole ++ '.' :: fraction).length) := by
  obtain ⟨wholeDigits, fractionDigits⟩ := List.forall_mem_append.mp digits
  have wholeLength : whole.length ≠ 0 := mt List.length_eq_zero_iff.mp wholeNonempty
  have fractionLength : fraction.length ≠ 0 := mt List.length_eq_zero_iff.mp fractionNonempty
  have point : Stops Text.isDigit ('.' :: (fraction ++ rest)) := by
    rintro c ⟨⟩
    decide
  have fits : decimal.length? (whole ++ '.' :: (fraction ++ rest)) =
      some (whole.length + 1 + fraction.length) := by
    simp only [length?, digitRun_append wholeDigits point, List.drop_left,
      digitRun_append fractionDigits stops, wholeLength, fractionLength, or_self, if_false]
  have length : (whole ++ '.' :: fraction).length = whole.length + 1 + fraction.length := by
    rw [List.length_append, List.length_cons]
    omega
  rw [List.append_assoc, List.cons_append, length]
  simp only [first?, all, List.findSome?_cons, length?_symbol_digits wholeDigits wholeNonempty,
    fits, Option.map_none, Option.map_some]

theorem first?_integer {digits : List Char} (inside : ∀ c ∈ digits, c.isDigit = true)
    (nonempty : digits ≠ []) (stops : Stops Text.isDigit rest)
    (noPoint : rest.head? ≠ some '.') :
    first? (digits ++ rest) = some (integer, digits.length) := by
  have run := digitRun_append inside stops
  have positive : digits.length ≠ 0 := mt List.length_eq_zero_iff.mp nonempty
  have noDecimal : decimal.length? (digits ++ rest) = none := by
    simp only [length?, run, List.drop_left]
    split
    case h_1 => exact absurd rfl noPoint
    case h_2 => rfl
  have fits : integer.length? (digits ++ rest) = some digits.length := by
    simp only [length?, run, positive, if_false]
  simp only [first?, all, List.findSome?_cons, length?_symbol_digits inside nonempty, noDecimal,
    fits, Option.map_none, Option.map_some]

theorem first?_word {c : Char} {text : List Char} (start : isWordStart c = true)
    (inside : ∀ c ∈ text, isWordPart c = true) (stops : Stops isWordPart rest) :
    first? (c :: text ++ rest) = some (word, text.length + 1) := by
  have noDigits := digitRun_eq_zero (isDigit_of_isWordStart start) (text ++ rest)
  have noSymbol : isStructural c = false := isStructural_eq_false start rfl
  have noQuotation : quotation.length? (c :: (text ++ rest)) = none := by
    have noMark : c ≠ '"' := by
      rintro rfl
      cases start
    simp [length?, noMark]
  have fits : word.length? (c :: (text ++ rest)) = some (text.length + 1) := by
    simp only [length?, start, if_true, takeWhile_stops inside stops]
  simp only [first?, all, List.cons_append, List.findSome?_cons, length?_symbol noSymbol,
    length?_decimal_of_digitRun noDigits, length?_integer_of_digitRun noDigits, fits, noQuotation,
    Option.map_none, Option.map_some]

theorem first?_root (cs : List Char) : first? ('@' :: cs) = some (root, 1) := by
  have noDigits : digitRun ('@' :: cs) = 0 := digitRun_eq_zero (by decide) cs
  have noSymbol : symbol.length? ('@' :: cs) = none := rfl
  have noQuotation : quotation.length? ('@' :: cs) = none := rfl
  have noWord : word.length? ('@' :: cs) = none := rfl
  have fits : root.length? ('@' :: cs) = some 1 := rfl
  simp only [first?, all, List.findSome?_cons, noSymbol, length?_decimal_of_digitRun noDigits,
    length?_integer_of_digitRun noDigits, noQuotation, noWord, fits, Option.map_none,
    Option.map_some]

theorem first?_quote (cs : List Char) :
    first? ('"' :: cs) = (closingQuote? 1 cs).map fun n => (quotation, n) := by
  have noDigits : digitRun ('"' :: cs) = 0 := digitRun_eq_zero (by decide) cs
  have noSymbol : isStructural '"' = false := rfl
  have noWord : word.length? ('"' :: cs) = none := rfl
  have noRoot : root.length? ('"' :: cs) = none := rfl
  have fits : quotation.length? ('"' :: cs) = closingQuote? 1 cs := rfl
  simp only [first?, all, List.findSome?_cons, length?_symbol noSymbol,
    length?_decimal_of_digitRun noDigits, length?_integer_of_digitRun noDigits, noWord, noRoot,
    fits, Option.map_none]
  cases closingQuote? 1 cs <;> rfl

end Pattern

def escapeChar (c : Char) : List Char :=
  if c = '"' ∨ c = '\\' then ['\\', c] else [c]

theorem quotation_eq (cs : List Char) : quotation cs = '"' :: (cs.flatMap escapeChar ++ ['"']) :=
  rfl

theorem escapeChar_cases (c : Char) :
    ((c = '"' ∨ c = '\\') ∧ escapeChar c = ['\\', c]) ∨
      ((c ≠ '"' ∧ c ≠ '\\') ∧ escapeChar c = [c]) := by
  by_cases h : c = '"' ∨ c = '\\'
  · exact .inl ⟨h, if_pos h⟩
  · exact .inr ⟨not_or.mp h, if_neg h⟩

theorem quotedBody_escaped (cs : List Char) : QuotedBody (cs.flatMap escapeChar) := by
  induction cs with
  | nil => exact .nil
  | cons c cs ih =>
    rw [List.flatMap_cons]
    rcases escapeChar_cases c with ⟨special, eq⟩ | ⟨⟨noQuote, noBackslash⟩, eq⟩
    · have noFeed : c ≠ '\n' := by
        rcases special with rfl | rfl <;> decide
      rw [eq]
      exact .covered noFeed ih
    · rw [eq]
      exact .plain noQuote noBackslash ih

theorem unescape_cons {c : Char} (h : c ≠ '\\') (cs : List Char) :
    unescape (c :: cs) = c :: unescape cs := by
  rw [unescape]
  all_goals
    intro rest eq
    exact absurd eq h

theorem unescape_escaped (cs : List Char) : unescape (cs.flatMap escapeChar) = cs := by
  induction cs with
  | nil => rfl
  | cons c cs ih =>
    rw [List.flatMap_cons]
    rcases escapeChar_cases c with ⟨rfl | rfl, eq⟩ | ⟨⟨-, noBackslash⟩, eq⟩
    · rw [eq, List.cons_append, List.cons_append, List.nil_append, unescape, ih]
    · rw [eq, List.cons_append, List.cons_append, List.nil_append, unescape, ih]
    · rw [eq, List.singleton_append, unescape_cons noBackslash, ih]

theorem Pattern.first?_quotation (cs rest : List Char) :
    first? (PipeExpr.quotation cs ++ rest) = some (quotation, (PipeExpr.quotation cs).length) := by
  rw [quotation_eq, List.cons_append, List.append_assoc, List.singleton_append, first?_quote,
    closingQuote?_body (quotedBody_escaped cs), List.length_cons, List.length_append,
    List.length_singleton, Option.map_some, Nat.add_comm 1]

namespace Magnitude

theorem first?_positional (m : Magnitude) (stops : Stops Text.isDigit rest) :
    Pattern.first? (m.shortest.positional ++ rest) =
      some (.decimal, m.shortest.positional.length) := by
  obtain ⟨whole, fraction, eq, written⟩ := m.shortest.positional_eq
  rw [eq]
  exact Pattern.first?_decimal written.isDigit written.whole_ne_nil written.fraction_ne_nil stops

theorem read?_positional (m : Magnitude) :
    Pattern.decimal.read? m.shortest.positional = some (.value, .float (.finite false m)) := by
  rw [Pattern.read?, Decimal.nearest?_decimalOf_positional, nearest?_shortest]
  rfl

end Magnitude

namespace Lexes

theorem space (h : Lexes rest as) : Lexes (' ' :: rest) as :=
  .blank (by decide) h

theorem ofText {text : List Char} {p : Pattern} {a : Terminal} (nonempty : text ≠ [])
    (visible : Stops Text.isBlank text)
    (first : Pattern.first? (text ++ rest) = some (p, text.length))
    (value : p.read? text = some (a.kind, a.value)) (h : Lexes rest as) :
    Lexes (text ++ rest) (a :: as) := by
  obtain ⟨c, cs, rfl⟩ := List.exists_cons_of_ne_nil nonempty
  exact .lexeme (visible c rfl) first value h

theorem structural {c : Char} (isSymbol : isStructural c = true) (h : Lexes rest as) :
    Lexes (c :: rest) (symbol (String.ofList [c]) :: as) :=
  have first : Pattern.first? ([c] ++ rest) = some (.symbol, [c].length) :=
    Pattern.first?_symbol isSymbol rest
  .lexeme (a := symbol (String.ofList [c])) (isBlank_of_isStructural isSymbol) first rfl h

theorem root (h : Lexes rest as) :
    Lexes ('@' :: rest) (⟨.reference, .string rootMarker⟩ :: as) :=
  have first : Pattern.first? (['@'] ++ rest) = some (.root, ['@'].length) :=
    Pattern.first?_root rest
  .lexeme (a := ⟨.reference, .string rootMarker⟩) (by decide) first rfl h

theorem quotation (s : String) (h : Lexes rest as) :
    Lexes (quotation s.toList ++ rest) (⟨.value, .string s⟩ :: as) := by
  refine ofText (by simp [quotation_eq]) ?_ (Pattern.first?_quotation s.toList rest) ?_ h
  · rintro c ⟨⟩
    decide
  · rw [quotation_eq, Pattern.read?, List.drop_succ_cons, List.drop_zero, List.dropLast_concat,
      unescape_escaped, String.ofList_toList]

theorem integer {n : Nat} (short : (Nat.toDigits 10 n).length ≤ maxIntegerDigits)
    (stops : Stops Text.isDigit rest) (noPoint : rest.head? ≠ some '.') (h : Lexes rest as) :
    Lexes (Nat.toDigits 10 n ++ rest) (⟨.value, .int n⟩ :: as) := by
  have digits : ∀ c ∈ Nat.toDigits 10 n, c.isDigit = true := Text.isDigit_of_mem_toDigits
  have nonempty : Nat.toDigits 10 n ≠ [] := Nat.toDigits_ne_nil
  refine ofText nonempty ?_ (Pattern.first?_integer digits nonempty stops noPoint) ?_ h
  · intro c head
    exact isBlank_of_isDigit (Text.isDigit_of_isDigit (digits c (List.mem_of_mem_head? head)))
  · rw [Pattern.read?, if_pos short, Text.digitsValue_toDigits]

theorem float (m : Magnitude) (stops : Stops Text.isDigit rest) (h : Lexes rest as) :
    Lexes (m.shortest.positional ++ rest) (⟨.value, .float (.finite false m)⟩ :: as) := by
  obtain ⟨whole, fraction, eq, written⟩ := m.shortest.positional_eq
  have wholeDigits := (List.forall_mem_append.mp written.isDigit).1
  refine ofText ?_ ?_ (m.first?_positional stops) m.read?_positional h
  · simp [eq]
  · intro c head
    rw [eq, List.head?_append_of_ne_nil _ written.whole_ne_nil] at head
    exact isBlank_of_isDigit
      (Text.isDigit_of_isDigit (wholeDigits c (List.mem_of_mem_head? head)))

theorem word {c : Char} {text : List Char} {a : Terminal} (start : isWordStart c = true)
    (inside : ∀ d ∈ text, isWordPart d = true) (stops : Stops isWordPart rest)
    (value : Pattern.word.read? (c :: text) = some (a.kind, a.value)) (h : Lexes rest as) :
    Lexes (c :: text ++ rest) (a :: as) := by
  exact .lexeme (isBlank_of_isWordStart start) (Pattern.first?_word start inside stops) value h

theorem name {s : String} (identifier : IsIdentifier s) (stops : Stops isWordPart rest)
    (h : Lexes rest as) : Lexes (s.toList ++ rest) (⟨.reference, .string s⟩ :: as) := by
  obtain ⟨c, cs, eq, start, inside⟩ := identifier.letters
  have same : String.ofList (c :: cs) = s := by rw [← eq, String.ofList_toList]
  have noKeyword : keyword? s = none := keyword?_eq_none_iff.mpr identifier.notKeyword
  rw [eq]
  refine word start inside stops ?_ h
  simp only [Pattern.read?, same, noKeyword]

end Lexes

end PipeExpr
