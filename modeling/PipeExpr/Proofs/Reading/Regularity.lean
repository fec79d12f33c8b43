import PipeExpr.Proofs.Writing.RoundTrip

set_option autoImplicit false

namespace PipeExpr

/-- The number is written with no more digits than an integer in a source may have. -/
def IsShort (n : Int) : Prop :=
  (Nat.toDigits 10 n.toNat).length ≤ maxIntegerDigits

theorem isShort_digitsValue {text : List Char} (short : text.length ≤ maxIntegerDigits) :
    IsShort (Text.digitsValue text) := by
  have lt : Text.digitsValue text < 10 ^ maxIntegerDigits :=
    Nat.lt_of_lt_of_le (Text.digitsValue_lt text) (Nat.pow_le_pow_right (by decide) short)
  exact (Nat.length_toDigits_le_iff (by decide) (by decide)).mpr lt

theorem Pattern.isShort_of_read? {p : Pattern} {text : List Char} {kind : TokenKind} {n : Int}
    (h : p.read? text = some (kind, .int n)) : IsShort n := by
  cases p with
  | integer =>
    rw [read?] at h
    split at h
    case isTrue short =>
      cases h
      exact isShort_digitsValue short
    case isFalse => cases h
  | decimal =>
    rw [read?, Option.map_eq_some_iff] at h
    obtain ⟨m, -, eq⟩ := h
    cases eq
  | word =>
    simp only [read?] at h
    split at h
    case h_1 known =>
      cases h
      simp only [keyword?] at known
      repeat' split at known
      all_goals cases known
    case h_2 => cases h
  | symbol | quotation | root => cases h

theorem Lexes.scanned_within {cs : List Char} {as : List Terminal} (h : Lexes cs as) :
    ∀ a ∈ as, a.ScannedWithin IsShort := by
  intro a mem
  refine ⟨h.scanned a mem, ?_⟩
  induction h with
  | nil => cases mem
  | blank _ _ ih => exact ih mem
  | lexeme _ _ value _ ih =>
    rcases List.mem_cons.mp mem with rfl | mem
    · rintro n rfl
      exact Pattern.isShort_of_read? value
    · exact ih mem

/-- The limits that decide which trees are read below the ceiling. -/
def Limits.belowCeiling (limits ceiling : Limits) : Limits :=
  if limits.depth ≤ ceiling.depth then limits else ceiling

theorem Limits.belowCeiling_le (limits ceiling : Limits) :
    (limits.belowCeiling ceiling).depth ≤ limits.depth := by
  rw [belowCeiling]
  split
  case isTrue => exact Nat.le_refl _
  case isFalse beyond => exact Nat.le_of_not_le beyond

theorem readBelowCeiling_eq_ok_iff {limits ceiling : Limits} {source : String}
    {tokens : List Token} {e : Expr} : readBelowCeiling limits source tokens ceiling = .ok e ↔
      readTokens (limits.belowCeiling ceiling) source tokens = .ok e := by
  unfold readBelowCeiling Limits.belowCeiling
  split
  case isTrue => rfl
  case isFalse =>
    split
    -- The refusal of the ceiling stays a refusal.
    case h_1 refused =>
      rw [refused]
      cases tokens <;> simp
    case h_2 => rfl

theorem readSourceBelowCeiling_eq_ok_iff {limits ceiling : Limits} {source : String} {e : Expr} :
    readSourceBelowCeiling limits source ceiling = .ok e ↔
      readSource (limits.belowCeiling ceiling) source = .ok e := by
  rw [readSourceBelowCeiling, readSource, readSourceBy_eq_ok_iff, readSourceBy_eq_ok_iff]
  simp only [readBelowCeiling_eq_ok_iff]

theorem exists_readSource {limits : Limits} {source : String} {e : Expr}
    (h : readSource limits source = .ok e ∨
      ∃ ceiling, readSourceBelowCeiling limits source ceiling = .ok e) :
    ∃ limits', limits'.depth ≤ limits.depth ∧ readSource limits' source = .ok e := by
  rcases h with read | ⟨ceiling, read⟩
  · exact ⟨limits, Nat.le_refl _, read⟩
  · exact ⟨_, limits.belowCeiling_le ceiling, readSourceBelowCeiling_eq_ok_iff.mp read⟩

/-- Every tree that is read is regular, and its integers have no more digits than a source may give
    to an integer. -/
theorem regular_of_readSource {limits : Limits} {source : String} {e : Expr}
    (h : readSource limits source = .ok e ∨
      ∃ ceiling, readSourceBelowCeiling limits source ceiling = .ok e) :
    e.Regular IsShort := by
  obtain ⟨limits, -, read⟩ := exists_readSource h
  obtain ⟨as, lexes, derived⟩ := readSource_eq_ok_iff.mp read
  exact derived.regular_within lexes.scanned_within

theorem regular_of_readSource_call :
    let e : Expr := .application (.reference ["f"]) [.literal .number (.int 1)]
    readSource {} "f (1)" = .ok e ∧ e.Regular IsShort := by
  intro e
  have read : readSource {} "f (1)" = .ok e := by rfl
  exact ⟨read, regular_of_readSource (.inl read)⟩

end PipeExpr
