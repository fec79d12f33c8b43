import Mathlib.Algebra.Group.Nat.Defs
import PipeExpr.Proofs.Grammar.Derivation
import PipeExpr.Reading.State

set_option autoImplicit false

namespace PipeExpr

namespace Symbol

def text : Symbol → String
  | openGroup => "("
  | closeGroup => ")"
  | openArray => "["
  | closeArray => "]"
  | openObject => "\x7b"
  | closeObject => "\x7d"
  | pipe => "|"
  | dot => "."
  | comma => ","
  | colon => ":"

theorem ofText?_text (s : Symbol) : ofText? s.text = some s := by
  cases s <;> rfl

theorem text_of_ofText? {text : String} {s : Symbol} (h : ofText? text = some s) :
    s.text = text := by
  unfold ofText? at h
  split at h <;> first | cases h; rfl | cases h

end Symbol

/-- A text stands for no number, so nothing but a text is the same. -/
theorem Scalar.same_string_iff {v : Scalar} {s : String} :
    v.same (.string s) = true ↔ v = .string s := by
  cases v with
  | string t => rw [Scalar.same, beq_iff_eq, Scalar.string.injEq]
  | null | bool | int => exact iff_of_false Bool.false_ne_true nofun
  | float x =>
    have different : (Scalar.float x).same (.string s) = false := by
      cases x with
      | finite negative m => cases negative <;> rfl
      | infinite | notANumber => rfl
    rw [different]
    exact iff_of_false Bool.false_ne_true nofun

theorem Text.numeral?_eq_none_iff {n : Int} :
    numeral? n = none ↔ 10 ^ maxIntegerDigits ≤ n.natAbs := by
  have short : (Nat.toDigits 10 n.natAbs).length ≤ maxIntegerDigits ↔
      n.natAbs < 10 ^ maxIntegerDigits :=
    Nat.length_toDigits_le_iff (by decide) (by decide)
  rw [← Nat.not_lt, ← short, numeral?]
  split <;> simp_all

theorem Scalar.text?_eq_none_iff {v : Scalar} :
    v.text? = none ↔ ∃ n, v = .int n ∧ 10 ^ maxIntegerDigits ≤ n.natAbs := by
  cases v with
  | int n => simp [text?, Text.numeral?_eq_none_iff]
  | null | bool | float | string => simp [text?]

namespace Token
open Terminal (symbol)

theorem role_eq_value_iff {t : Token} {v : Scalar} :
    t.role = .value v ↔ t.terminal = ⟨.value, v⟩ := by
  obtain ⟨kind, value, start, text⟩ := t
  cases kind with
  | value => simp [role, terminal]
  | reference =>
    simp only [role, terminal]
    split <;> simp
  | special =>
    cases value <;> simp [role, terminal]
    split <;> simp

theorem role_eq_name_iff {t : Token} {segment : String} {isSegment : Bool} :
    t.role = .name segment isSegment ↔
      ∃ v : Scalar, t.terminal = ⟨.reference, v⟩ ∧ v.text? = some segment ∧
        isSegment = decide (v ≠ .string rootMarker) := by
  obtain ⟨kind, value, start, text⟩ := t
  cases kind with
  | value => simp [role, terminal]
  | reference =>
    have marker : (!value.same (.string rootMarker)) = decide (value ≠ .string rootMarker) := by
      rw [Bool.eq_iff_iff, Bool.not_eq_true', decide_eq_true_eq, ← Bool.not_eq_true,
        Scalar.same_string_iff]
    simp only [role, marker]
    split
    case h_1 name written => simp [terminal, written, eq_comm]
    case h_2 unwritten => simp [terminal, unwritten]
  | special =>
    cases value <;> simp [role, terminal]
    split <;> simp

theorem role_eq_overlong_iff {t : Token} :
    t.role = .overlong ↔ ∃ v : Scalar, t.terminal = ⟨.reference, v⟩ ∧ v.text? = none := by
  obtain ⟨kind, value, start, text⟩ := t
  cases kind with
  | value => simp [role, terminal]
  | reference =>
    simp only [role]
    split
    case h_1 name written => simp [terminal, written]
    case h_2 unwritten => simp [terminal, unwritten]
  | special =>
    cases value <;> simp [role, terminal]
    split <;> simp

theorem text?_of_role_ne_overlong {t : Token} {v : Scalar} (eq : t.terminal = ⟨.reference, v⟩)
    (writable : t.role ≠ .overlong) : v.text? = some v.text := by
  cases written : v.text? with
  | none => exact absurd (role_eq_overlong_iff.mpr ⟨v, eq, written⟩) writable
  | some name => rw [Scalar.text_of_text? written]

theorem role_eq_symbol_iff {t : Token} {s : Symbol} :
    t.role = .symbol s ↔ t.terminal = symbol s.text := by
  obtain ⟨kind, value, start, text⟩ := t
  cases kind with
  | value => simp [role, terminal, symbol]
  | reference =>
    simp only [role]
    split <;> simp [terminal, symbol]
  | special =>
    cases value with
    | string text =>
      simp only [role, terminal, symbol, Terminal.mk.injEq, true_and, Scalar.string.injEq]
      constructor
      · intro h
        cases found : Symbol.ofText? text <;> simp_all
        exact (Symbol.text_of_ofText? found).symm
      · rintro rfl
        simp [Symbol.ofText?_text]
    | null | bool | int | float => simp [role, terminal, symbol]

/-- The token is read as the terminal. A name only has to have the text of the terminal. -/
inductive Reads (t : Token) : Terminal → Prop
  | name (v : Scalar) :
      t.role = .name v.text (decide (v ≠ .string rootMarker)) → Reads t ⟨.reference, v⟩
  | other {a : Terminal} : a.kind ≠ .reference → t.terminal = a → Reads t a

theorem Reads.terminal_eq {t : Token} {a : Terminal} (h : t.Reads a) (kind : a.kind ≠ .reference) :
    t.terminal = a := by
  cases h with
  | name => exact absurd rfl kind
  | other _ eq => exact eq

theorem reads_terminal {t : Token} (writable : t.role ≠ .overlong) : t.Reads t.terminal := by
  generalize eq : t.terminal = a
  obtain ⟨kind, v⟩ := a
  by_cases name : kind = .reference
  · subst name
    exact .name v (role_eq_name_iff.mpr ⟨v, eq, text?_of_role_ne_overlong eq writable, rfl⟩)
  · exact .other name eq

end Token

end PipeExpr
