import PipeExpr.Proofs.Expr.Height
import PipeExpr.Proofs.Expr.Typed

/-!
# Trees without a source text

A tree is written part by part from left to right, so its first obstacle is met where the visit of
the tree meets it first. In typed trees the only obstacles are number literals: numbers that are not
finite, negative ones, and integers out of the range of the floating-point numbers.
-/

set_option autoImplicit false

namespace PipeExpr

def failure? {ε α : Type} : Except ε α → Option ε
  | .ok _ => none
  | .error err => some err

theorem failure?_eq_some_iff {ε α : Type} {x : Except ε α} {err : ε} :
    failure? x = some err ↔ x = .error err := by
  cases x <;> simp [failure?]

theorem failure?_map {ε α β : Type} (f : α → β) (x : Except ε α) :
    failure? (x.map f) = failure? x := by
  cases x <;> rfl

theorem failure?_mapM {ε α β : Type} (f : α → Except ε β) (as : List α) :
    failure? (as.mapM f) = as.findSome? fun a => failure? (f a) := by
  induction as with
  | nil => rfl
  | cons a as ih =>
    rw [List.mapM_cons, List.findSome?_cons, ← ih]
    cases f a with
    | error err => rfl
    | ok b => cases as.mapM f <;> rfl

namespace Expr

variable {e : Expr} {es ps nodes : List Expr}

/-- The failure that a node causes by itself. -/
def obstacle? : Expr → Option WriteError
  | literal type value => failure? (type.write value)
  | _ => none

theorem failure?_writeList (group : Expr → Bool) (es : List Expr) :
    failure? (writeList group es) = es.findSome? fun e => failure? e.write := by
  rw [writeList_eq_mapM, failure?_mapM]
  simp only [failure?_map]

theorem failure?_writeMembers (ms : List (String × Expr)) :
    failure? (writeMembers ms) = (ms.map (·.2)).findSome? fun e => failure? e.write := by
  rw [writeMembers_eq_mapM, failure?_mapM, List.findSome?_map]
  simp only [failure?_map]
  rfl

theorem failure?_write_of_parts (parts : e.parts? = .ok ps) :
    failure? e.write = e.obstacle?.or (ps.findSome? fun p => failure? p.write) := by
  cases e with
  | literal type value =>
    cases parts
    rw [write, obstacle?, List.findSome?_nil, Option.or_none]
  | reference path =>
    cases parts
    rfl
  | array es =>
    cases parts
    rw [← failure?_writeList fun _ => false]
    exact failure?_map _ _
  | object ms =>
    cases parts
    rw [← failure?_writeMembers]
    exact failure?_map _ _
  | application function arguments =>
    cases parts
    rw [List.findSome?_cons, ← failure?_writeList fun e => e.isApplication || e.isPipeline, write]
    cases function.write with
    | error err => rfl
    | ok text => exact failure?_map _ _
  | pipeline stages =>
    cases parts
    rw [← failure?_writeList isPipeline]
    exact failure?_map _ _
  | foreign v => cases parts

theorem findSome?_failure?_write (visited : visitAll es = .ok nodes) :
    (es.findSome? fun e => failure? e.write) = nodes.findSome? obstacle? := by
  induction es using visitAll.induct generalizing nodes with
  | case1 =>
    rw [visitAll] at visited
    cases visited
    rfl
  | case2 e rest err failed =>
    rw [visitAll_cons_error failed] at visited
    cases visited
  | case3 e rest ps parts ih =>
    rw [visitAll_cons_ok parts] at visited
    cases below : visitAll (ps ++ rest) with
    | error err =>
      rw [below] at visited
      cases visited
    | ok others =>
      rw [below] at visited
      cases visited
      have behind := ih below
      rw [List.findSome?_append] at behind
      rw [List.findSome?_cons, List.findSome?_cons, failure?_write_of_parts parts, ← behind]
      cases e.obstacle? with
      | some err => rfl
      | none => cases ps.findSome? fun p => failure? p.write <;> rfl

/-- The number literals that have no numeral, each with its error. -/
inductive Unwritable : Expr → WriteError → Prop
  | infinite (negative : Bool) :
      Unwritable (.literal .number (.float (.infinite negative))) (.nonFinite (.infinite negative))
  | notANumber : Unwritable (.literal .number (.float .notANumber)) (.nonFinite .notANumber)
  | negativeFloat (m : Magnitude) : Unwritable (.literal .number (.float (.finite true m)))
      (.negative (.float (.finite true m)))
  | negativeInteger {n : Int} : n < 0 →
      Unwritable (.literal .number (.int n)) (.negative (.int n))
  | tooLarge {n : Int} : integerLimit ≤ n → Unwritable (.literal .number (.int n)) .tooLarge

theorem numeral_int_error_iff {n : Int} {err : WriteError} : (Scalar.int n).numeral = .error err ↔
    Unwritable (.literal .number (.int n)) err := by
  rw [Scalar.numeral]
  constructor
  · intro failed
    split at failed
    case isTrue negative =>
      cases failed
      exact .negativeInteger negative
    case isFalse notNegative =>
      split at failed <;> cases failed
      rename_i large
      exact .tooLarge (by omega)
  · intro unwritable
    cases unwritable with
    | negativeInteger negative => rw [if_pos negative]
    | tooLarge large =>
      have notNegative : ¬n < 0 := Int.not_lt.mpr (Int.le_trans (Int.natCast_nonneg _) large)
      rw [if_neg notNegative, if_pos (by omega)]

theorem numeral_float_error_iff {x : Binary64} {err : WriteError} :
    (Scalar.float x).numeral = .error err ↔ Unwritable (.literal .number (.float x)) err := by
  constructor
  · intro failed
    match x, failed with
    | .finite true m, rfl => exact .negativeFloat m
    | .infinite negative, rfl => exact .infinite negative
    | .notANumber, rfl => exact .notANumber
  · intro unwritable
    cases unwritable <;> rfl

theorem Typed.obstacle?_eq_some_iff {err : WriteError} (h : e.Typed) :
    e.obstacle? = some err ↔ Unwritable e err := by
  cases h with
  | integer n => rw [obstacle?, failure?_eq_some_iff, ← numeral_int_error_iff, ScalarType.write]
  | float x => rw [obstacle?, failure?_eq_some_iff, ← numeral_float_error_iff, ScalarType.write]
  | string | boolean | null | array | object | reference | application | pipeline =>
    constructor <;> intro h <;> cases h

theorem failure?_source (e : Expr) : failure? e.source = failure? e.write :=
  failure?_map _ _

theorem Unwritable.source_eq {err : WriteError} (h : Unwritable e err) : e.source = .error err := by
  rw [← failure?_eq_some_iff, failure?_source]
  cases h with
  | infinite | notANumber | negativeFloat => rfl
  | negativeInteger negative =>
    exact failure?_eq_some_iff.mpr (numeral_int_error_iff.mpr (.negativeInteger negative))
  | tooLarge large => exact failure?_eq_some_iff.mpr (numeral_int_error_iff.mpr (.tooLarge large))

/-- The error of a tree is the first obstacle that its visit meets. -/
theorem source_eq_error_iff {err : WriteError} (visited : e.visit = .ok nodes) :
    e.source = .error err ↔ nodes.findSome? obstacle? = some err := by
  have first := findSome?_failure?_write visited
  rw [List.findSome?_singleton] at first
  rw [← failure?_eq_some_iff, failure?_source, first]

/-- A typed tree fails to be written if and only if one of its nodes is a number literal without a
    numeral. It fails with the error that the first of these literals, in the order of the visit,
    gives by itself. -/
theorem source_error_at_first_unwritable (typed : e.Typed) :
    ∃ nodes, e.visit = .ok nodes ∧
      ((∃ err, e.source = .error err) ↔ ∃ n ∈ nodes, ∃ err, Unwritable n err) ∧
      ∀ err, e.source = .error err ↔ ∃ before first after, nodes = before ++ first :: after ∧
        (∀ n ∈ before, ∀ err', ¬Unwritable n err') ∧ Unwritable first err ∧
          first.source = .error err := by
  obtain ⟨nodes, visited, typedNodes⟩ := typed.visit
  have iff : ∀ n ∈ nodes, ∀ err, n.obstacle? = some err ↔ Unwritable n err :=
    fun n mem err => (typedNodes n mem).obstacle?_eq_some_iff
  refine ⟨nodes, visited, ?_, fun err => ?_⟩
  · simp only [source_eq_error_iff visited]
    rw [← Option.isSome_iff_exists, List.findSome?_isSome_iff]
    apply exists_congr
    intro n
    apply and_congr_right
    intro mem
    rw [Option.isSome_iff_exists]
    exact exists_congr (iff n mem)
  · rw [source_eq_error_iff visited, List.findSome?_eq_some_iff]
    constructor
    · rintro ⟨before, n, after, rfl, obstacle, none⟩
      have unwritable := (iff n (by simp) err).mp obstacle
      refine ⟨before, n, after, rfl, ?_, unwritable, unwritable.source_eq⟩
      intro n' mem err' unwritable'
      have some := (iff n' (by simp [mem]) err').mpr unwritable'
      rw [none n' mem] at some
      cases some
    · rintro ⟨before, n, after, rfl, none, unwritable, -⟩
      refine ⟨before, n, after, rfl, (iff n (by simp) err).mpr unwritable, ?_⟩
      intro n' mem
      rw [Option.eq_none_iff_forall_ne_some]
      intro err' obstacle
      exact none n' mem err' ((iff n' (by simp [mem]) err').mp obstacle)

theorem source_error_at_first_unwritable_zero :
    let zero := literal .number (.float (.finite true .zero))
    let large := literal .number (.int integerLimit)
    let e := application (reference ["f"]) [array [zero], large]
    e.Typed ∧ e.source = .error (.negative (.float (.finite true .zero))) ∧
      ∃ before first after, e.visit = .ok (before ++ first :: after) ∧
        (∀ n ∈ before, ∀ err, ¬Unwritable n err) ∧
          Unwritable first (.negative (.float (.finite true .zero))) := by
  intro zero large e
  have typed : e.Typed := .application (.reference _) (List.forall_mem_cons.mpr
    ⟨.array (List.forall_mem_singleton.mpr (.float _)),
      List.forall_mem_singleton.mpr (.integer _)⟩)
  have failed : e.source = .error (.negative (.float (.finite true .zero))) := rfl
  obtain ⟨nodes, visited, -, iff⟩ := source_error_at_first_unwritable typed
  obtain ⟨before, first, after, rfl, none, unwritable, -⟩ := (iff _).mp failed
  exact ⟨typed, failed, before, first, after, visited, none, unwritable⟩

end Expr

end PipeExpr
