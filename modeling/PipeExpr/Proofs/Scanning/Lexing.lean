import PipeExpr.Proofs.Grammar.Derivation
import PipeExpr.Token.Scanner

set_option autoImplicit false

namespace PipeExpr

/-- The characters are scanned into tokens with these terminals. -/
inductive Lexes : List Char → List Terminal → Prop
  | nil : Lexes [] []
  | blank {c : Char} {cs : List Char} {as : List Terminal} :
      Text.isBlank c = true → Lexes cs as → Lexes (c :: cs) as
  | lexeme {c : Char} {text rest : List Char} {p : Pattern} {a : Terminal} {as : List Terminal} :
      Text.isBlank c = false → Pattern.first? (c :: text ++ rest) = some (p, text.length + 1) →
        p.read? (c :: text) = some (a.kind, a.value) → Lexes rest as →
          Lexes (c :: text ++ rest) (a :: as)

/-- What may stand between double quotes: a backslash covers any character but a line feed. -/
inductive QuotedBody : List Char → Prop
  | nil : QuotedBody []
  | plain {c : Char} {cs : List Char} : c ≠ '"' → c ≠ '\\' → QuotedBody cs → QuotedBody (c :: cs)
  | covered {c : Char} {cs : List Char} :
      c ≠ '\n' → QuotedBody cs → QuotedBody ('\\' :: c :: cs)

theorem closingQuote?_body {body : List Char} (h : QuotedBody body) (rest : List Char)
    (count : Nat) : closingQuote? count (body ++ '"' :: rest) = some (count + body.length + 1) := by
  induction h generalizing count with
  | nil => rfl
  | plain noQuote noBackslash _ ih =>
    rw [List.cons_append, closingQuote?, ih, List.length_cons]
    · congr 1
      omega
    · exact noQuote
    · intro d rest' eq
      exact absurd eq noBackslash
  | covered noFeed _ ih =>
    rw [List.cons_append, List.cons_append, closingQuote?, if_neg noFeed, ih, List.length_cons,
      List.length_cons]
    congr 1
    omega

theorem body_of_closingQuote? {count n : Nat} {cs : List Char}
    (h : closingQuote? count cs = some n) :
    ∃ body rest, cs = body ++ '"' :: rest ∧ QuotedBody body ∧ n = count + body.length + 1 := by
  fun_induction closingQuote? count cs with
  | case1 => cases h
  | case2 count rest =>
    cases h
    exact ⟨[], rest, rfl, .nil, rfl⟩
  | case3 => cases h
  | case4 count c rest noFeed ih =>
    obtain ⟨body, rest, rfl, valid, rfl⟩ := ih h
    refine ⟨'\\' :: c :: body, rest, rfl, .covered noFeed valid, ?_⟩
    simp only [List.length_cons]
    omega
  | case5 count c rest noQuote noCover ih =>
    obtain ⟨body, rest, rfl, valid, rfl⟩ := ih h
    have noBackslash : c ≠ '\\' := by
      rintro rfl
      cases body with
      | nil => exact noCover '"' rest rfl rfl
      | cons d body => exact noCover d _ rfl rfl
    refine ⟨c :: body, rest, rfl, .plain noQuote noBackslash valid, ?_⟩
    simp only [List.length_cons]
    omega

theorem closingQuote?_bounds {count n : Nat} {cs : List Char}
    (h : closingQuote? count cs = some n) : count < n ∧ n ≤ count + cs.length := by
  obtain ⟨body, rest, rfl, -, rfl⟩ := body_of_closingQuote? h
  simp only [List.length_append, List.length_cons]
  omega

namespace Pattern
variable {p : Pattern} {cs : List Char} {n : Nat}

theorem digitRun_le (cs : List Char) : digitRun cs ≤ cs.length :=
  (List.takeWhile_prefix _).length_le

theorem length?_bounds (h : p.length? cs = some n) : 0 < n ∧ n ≤ cs.length := by
  unfold length? at h
  split at h
  case h_1 c rest =>
    split at h <;> cases h
    simp
  case h_2 =>
    simp only at h
    split at h
    case h_1 rest behind =>
      split at h
      case isTrue => cases h
      case isFalse digits =>
        cases h
        have wholeLength := congrArg List.length behind
        have fractionLength := digitRun_le rest
        simp only [List.length_drop, List.length_cons] at wholeLength
        omega
    case h_2 => cases h
  case h_3 =>
    split at h <;> cases h
    have length := digitRun_le cs
    omega
  case h_4 rest =>
    have bounds := closingQuote?_bounds h
    simp only [List.length_cons]
    omega
  case h_5 c rest =>
    split at h <;> cases h
    have length := (List.takeWhile_prefix (l := rest) isWordPart).length_le
    simp only [List.length_cons]
    omega
  case h_6 rest =>
    cases h
    simp
  case h_7 => cases h

theorem length?_of_first? (h : first? cs = some (p, n)) : p.length? cs = some n := by
  obtain ⟨q, -, found⟩ := List.exists_of_findSome?_eq_some h
  rw [Option.map_eq_some_iff] at found
  obtain ⟨m, length, eq⟩ := found
  cases eq
  exact length

end Pattern

namespace Scanner

theorem next_blank {c : Char} (h : Text.isBlank c = true) (cs : List Char) (l : Location) :
    next ⟨c :: cs, l⟩ = next ⟨cs, l.step c⟩ := by
  simp only [next, skipBlanks, List.takeWhile_cons_of_pos h, List.length_cons, skip,
    List.drop_succ_cons, List.take_succ_cons, Location.advance_cons]

theorem next_of_not_blank {c : Char} (h : Text.isBlank c = false) (cs : List Char)
    (l : Location) : next ⟨c :: cs, l⟩ = eventHere ⟨c :: cs, l⟩ := by
  have none : ¬Text.isBlank c = true := by rw [h]; decide
  simp only [next, skipBlanks, List.takeWhile_cons_of_neg none, List.length_nil, skip,
    List.drop_zero, List.take_zero, Location.advance_nil]

theorem next_lexeme {c : Char} {text rest : List Char} {p : Pattern} {a : Terminal}
    (notBlank : Text.isBlank c = false)
    (first : Pattern.first? (c :: text ++ rest) = some (p, text.length + 1))
    (value : p.read? (c :: text) = some (a.kind, a.value)) (l : Location) :
    next ⟨c :: text ++ rest, l⟩ =
      (.token ⟨a.kind, a.value, l, String.ofList (c :: text)⟩, ⟨rest, l.advance (c :: text)⟩) := by
  have taken : (c :: (text ++ rest)).take (text.length + 1) = c :: text := by
    rw [List.take_succ_cons, List.take_left]
  have left : (c :: (text ++ rest)).drop (text.length + 1) = rest := by
    rw [List.drop_succ_cons, List.drop_left]
  rw [List.cons_append] at first ⊢
  rw [next_of_not_blank notBlank]
  simp only [eventHere, first, taken, value, skip, left]

/-- A scanner that stands on a character takes a lexeme, or leaves a numeral behind that is out of
    range, or stays where no pattern fits. -/
theorem next_cases {c : Char} (notBlank : Text.isBlank c = false) (cs : List Char)
    (l : Location) :
    (∃ text rest p, ∃ a : Terminal, cs = text ++ rest ∧
      Pattern.first? (c :: text ++ rest) = some (p, text.length + 1) ∧
      p.read? (c :: text) = some (a.kind, a.value)) ∨
    (∃ text rest p, cs = text ++ rest ∧
      Pattern.first? (c :: text ++ rest) = some (p, text.length + 1) ∧
      p.read? (c :: text) = none ∧
      next ⟨c :: text ++ rest, l⟩ =
        (.failure ⟨c.toString, l, .outOfRange⟩, ⟨rest, l.advance (c :: text)⟩)) ∨
    (Pattern.first? (c :: cs) = none ∧
      next ⟨c :: cs, l⟩ = (.failure ⟨c.toString, l, .unexpectedCharacter⟩, ⟨c :: cs, l⟩)) := by
  cases first : Pattern.first? (c :: cs) with
  | none =>
    refine .inr (.inr ⟨rfl, ?_⟩)
    rw [next_of_not_blank notBlank]
    simp only [eventHere, first]
  | some found =>
    obtain ⟨p, n⟩ := found
    obtain ⟨pos, inside⟩ := Pattern.length?_bounds (Pattern.length?_of_first? first)
    obtain ⟨n, rfl⟩ : ∃ k, n = k + 1 := ⟨n - 1, by omega⟩
    rw [List.length_cons] at inside
    have length : (cs.take n).length = n := List.length_take_of_le (by omega)
    have whole : c :: cs.take n ++ cs.drop n = c :: cs := by
      rw [List.cons_append, List.take_append_drop]
    have fits : Pattern.first? (c :: cs.take n ++ cs.drop n) =
        some (p, (cs.take n).length + 1) := by
      rw [whole, length]
      exact first
    have parts : cs = cs.take n ++ cs.drop n := (List.take_append_drop n cs).symm
    cases value : p.read? (c :: cs.take n) with
    | some read =>
      exact .inl ⟨cs.take n, cs.drop n, p, ⟨read.1, read.2⟩, parts, fits, value⟩
    | none =>
      refine .inr (.inl ⟨cs.take n, cs.drop n, p, parts, fits, value, ?_⟩)
      rw [whole, next_of_not_blank notBlank]
      simp only [eventHere, first, List.take_succ_cons, value, skip, List.drop_succ_cons]

end Scanner

end PipeExpr
