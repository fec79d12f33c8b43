import PipeExpr.Proofs.Expr.Preorder

/-!
# Typed trees

The trees whose literals hold values of their types, with no bare scalar among the nodes. Apart from
that they need not be trees that a source can stand for: numbers may be negative or not finite, and
paths are arbitrary.
-/

set_option autoImplicit false

namespace PipeExpr.Expr

inductive Typed : Expr → Prop
  | string (s : String) : Typed (.literal .string (.string s))
  | boolean (b : Bool) : Typed (.literal .boolean (.bool b))
  | null : Typed (.literal .null .null)
  | integer (n : Int) : Typed (.literal .number (.int n))
  | float (x : Binary64) : Typed (.literal .number (.float x))
  | array {es : List Expr} : (∀ e ∈ es, Typed e) → Typed (.array es)
  | object {ms : List (String × Expr)} : (ms.map (·.1)).Nodup → (∀ m ∈ ms, Typed m.2) →
      Typed (.object ms)
  | reference (path : List String) : Typed (.reference path)
  | application {function : Expr} {arguments : List Expr} : Typed function →
      (∀ e ∈ arguments, Typed e) → Typed (.application function arguments)
  | pipeline {stages : List Expr} : (∀ e ∈ stages, Typed e) → Typed (.pipeline stages)

variable {e : Expr} {es : List Expr}

theorem Typed.parts (h : e.Typed) : ∃ ps, e.parts? = .ok ps ∧ ∀ p ∈ ps, p.Typed := by
  cases h with
  | string | boolean | null | integer | float | reference => exact ⟨[], rfl, nofun⟩
  | array elements => exact ⟨_, rfl, elements⟩
  | object _ values => exact ⟨_, rfl, List.forall_mem_map.mpr values⟩
  | application function arguments =>
    exact ⟨_, rfl, List.forall_mem_cons.mpr ⟨function, arguments⟩⟩
  | pipeline stages => exact ⟨_, rfl, stages⟩

theorem exists_visitAll_of_typed (h : ∀ e ∈ es, e.Typed) :
    ∃ nodes, visitAll es = .ok nodes ∧ ∀ n ∈ nodes, n.Typed := by
  induction es using visitAll.induct with
  | case1 => exact ⟨[], by rw [visitAll], List.forall_mem_nil _⟩
  | case2 e rest err failed =>
    obtain ⟨ps, parts, -⟩ := (h e List.mem_cons_self).parts
    rw [parts] at failed
    cases failed
  | case3 e rest ps parts ih =>
    obtain ⟨typed, others⟩ := List.forall_mem_cons.mp h
    obtain ⟨ps', parts', typedParts⟩ := typed.parts
    rw [parts] at parts'
    cases parts'
    obtain ⟨nodes, visited, typedNodes⟩ := ih (List.forall_mem_append.mpr ⟨typedParts, others⟩)
    refine ⟨e :: nodes, ?_, List.forall_mem_cons.mpr ⟨typed, typedNodes⟩⟩
    rw [visitAll_cons_ok parts, visited]
    rfl

theorem Typed.visit (h : e.Typed) : ∃ nodes, e.visit = .ok nodes ∧ ∀ n ∈ nodes, n.Typed :=
  exists_visitAll_of_typed (List.forall_mem_singleton.mpr h)

end PipeExpr.Expr
