import PipeExpr.Expr.Source
import PipeExpr.Token.Lexeme

set_option autoImplicit false

namespace PipeExpr

/-- A name: an ASCII letter or underscore, then letters, digits and underscores, and no keyword. -/
structure IsIdentifier (s : String) : Prop where
  letters : ∃ c cs, s.toList = c :: cs ∧ isWordStart c = true ∧ ∀ d ∈ cs, isWordPart d = true
  notKeyword : s ≠ "true" ∧ s ≠ "false" ∧ s ≠ "null"

theorem IsIdentifier.ne_rootMarker {s : String} (h : IsIdentifier s) : s ≠ rootMarker := by
  rintro rfl
  obtain ⟨c, cs, eq, start, -⟩ := h.letters
  cases (show ['@'] = c :: cs from eq)
  cases start

theorem keyword?_eq_none_iff {s : String} :
    keyword? s = none ↔ s ≠ "true" ∧ s ≠ "false" ∧ s ≠ "null" := by
  rw [keyword?]
  grind

namespace Expr

inductive Regular (allowed : Int → Prop) : Expr → Prop
  | string (s : String) : Regular allowed (.literal .string (.string s))
  | boolean (b : Bool) : Regular allowed (.literal .boolean (.bool b))
  | null : Regular allowed (.literal .null .null)
  | integer (n : Nat) : allowed n → Regular allowed (.literal .number (.int n))
  | float (m : Magnitude) : Regular allowed (.literal .number (.float (.finite false m)))
  | array {es : List Expr} : (∀ e ∈ es, Regular allowed e) → Regular allowed (.array es)
  | object {ms : List (String × Expr)} : (ms.map (·.1)).Nodup →
      (∀ m ∈ ms, Regular allowed m.2) → Regular allowed (.object ms)
  | reference {first : String} {others : List String} :
      first = rootMarker ∨ IsIdentifier first → (∀ s ∈ others, IsIdentifier s) →
        Regular allowed (.reference (first :: others))
  | application {function : Expr} {arguments : List Expr} : arguments ≠ [] →
      Regular allowed function → (∀ e ∈ arguments, Regular allowed e) →
        Regular allowed (.application function arguments)
  | pipeline {stages : List Expr} : 2 ≤ stages.length →
      (∀ e ∈ stages, Regular allowed e) → Regular allowed (.pipeline stages)

/-- Every integer has a floating-point number near to it. -/
def WellFormed (e : Expr) : Prop :=
  e.Regular (· < integerLimit)

mutual

def integers : Expr → List Int
  | literal _ (.int n) => [n]
  | array elements => integersList elements
  | object members => integersMembers members
  | application function arguments => function.integers ++ integersList arguments
  | pipeline stages => integersList stages
  | literal .. | reference _ | foreign _ => []

def integersList : List Expr → List Int
  | [] => []
  | e :: rest => e.integers ++ integersList rest

def integersMembers : List (String × Expr) → List Int
  | [] => []
  | (_, e) :: rest => e.integers ++ integersMembers rest

end

theorem mem_integersList {n : Int} {es : List Expr} :
    n ∈ integersList es ↔ ∃ e ∈ es, n ∈ e.integers := by
  induction es with
  | nil => simp [integersList]
  | cons e es ih => simp [integersList, ih]

theorem integersMembers_eq (ms : List (String × Expr)) :
    integersMembers ms = integersList (ms.map (·.2)) := by
  induction ms with
  | nil => rfl
  | cons m ms ih => rw [integersMembers, ih, List.map_cons, integersList]

theorem Regular.narrow {allowed p : Int → Prop} {e : Expr} (h : e.Regular allowed)
    (narrower : ∀ n ∈ e.integers, p n) : e.Regular p := by
  induction h with
  | string s => exact .string s
  | boolean b => exact .boolean b
  | null => exact .null
  | integer n _ => exact .integer n (narrower n List.mem_cons_self)
  | float m => exact .float m
  | array _ ih =>
    apply Regular.array
    intro e mem
    apply ih e mem
    intro n inside
    exact narrower n (mem_integersList.mpr ⟨e, mem, inside⟩)
  | object nodup _ ih =>
    apply Regular.object nodup
    intro m mem
    apply ih m mem
    intro n inside
    apply narrower n
    rw [integers, integersMembers_eq]
    exact mem_integersList.mpr ⟨m.2, List.mem_map_of_mem mem, inside⟩
  | reference first others => exact .reference first others
  | application nonempty _ _ ihFunction ih =>
    apply Regular.application nonempty
    · apply ihFunction
      intro n inside
      exact narrower n (List.mem_append_left _ inside)
    · intro e mem
      apply ih e mem
      intro n inside
      exact narrower n (List.mem_append_right _ (mem_integersList.mpr ⟨e, mem, inside⟩))
  | pipeline long _ ih =>
    apply Regular.pipeline long
    intro e mem
    apply ih e mem
    intro n inside
    exact narrower n (mem_integersList.mpr ⟨e, mem, inside⟩)

end Expr

end PipeExpr
