import PipeExpr.Proofs.Expr.Height
import PipeExpr.Proofs.Reading.Regularity

/-!
# Limits on the height of trees

A level of brackets makes a tree at most three nodes higher: an array or an object, an application
and a pipeline. So the nesting limit alone bounds the height of every tree that is read, and with it
the recursion over such a tree.
-/

set_option autoImplicit false

namespace PipeExpr

namespace Expr

theorem height_applied_le (function : Expr) (arguments : List Expr) :
    (applied function arguments).height ≤ heightList (function :: arguments) + 1 := by
  cases arguments with
  | nil => exact Nat.le_succ_of_le (Nat.le_max_left ..)
  | cons argument arguments => exact Nat.le_refl _

theorem height_piped_le (first : Expr) (others : List Expr) :
    (piped first others).height ≤ heightList (first :: others) + 1 := by
  cases others with
  | nil => exact Nat.le_succ_of_le (Nat.le_max_left ..)
  | cons second others => exact Nat.le_refl _

theorem height_ofScalar (v : Scalar) : (ofScalar v).height = 1 := by
  cases v <;> rfl

end Expr

namespace Grammar

-- What is read as an operand is one node lower than what is read as a stage, and that one lower
-- than a pipeline. Inside a bracket there is one level less.
mutual

theorem Pipeline.height_le {d : Nat} {ts : List Terminal} {e : Expr} (h : Pipeline d ts e) :
    e.height ≤ 3 * d + 3 := by
  match h with
  | .ofStages stages =>
    exact (Expr.height_piped_le _ _).trans (Nat.succ_le_succ stages.height_le)
termination_by structural h

theorem Stages.height_le {d : Nat} {ts : List Terminal} {es : List Expr} (h : Stages d ts es) :
    Expr.heightList es ≤ 3 * d + 2 := by
  match h with
  | .one application => exact Nat.max_le.mpr ⟨application.height_le, Nat.zero_le _⟩
  | .more application stages => exact Nat.max_le.mpr ⟨application.height_le, stages.height_le⟩
termination_by structural h

theorem Application.height_le {d : Nat} {ts : List Terminal} {e : Expr}
    (h : Application d ts e) : e.height ≤ 3 * d + 2 := by
  match h with
  | .ofOperands operands =>
    exact (Expr.height_applied_le _ _).trans (Nat.succ_le_succ operands.height_le)
termination_by structural h

theorem Operands.height_le {d : Nat} {ts : List Terminal} {es : List Expr}
    (h : Operands d ts es) : Expr.heightList es ≤ 3 * d + 1 := by
  match h with
  | .one primary => exact Nat.max_le.mpr ⟨primary.height_le, Nat.zero_le _⟩
  | .more primary operands => exact Nat.max_le.mpr ⟨primary.height_le, operands.height_le⟩
termination_by structural h

theorem Primary.height_le {d : Nat} {ts : List Terminal} {e : Expr} (h : Primary d ts e) :
    e.height ≤ 3 * d + 1 := by
  match h with
  | .value v =>
    rw [Expr.height_ofScalar]
    exact Nat.le_add_left ..
  | .reference v segments => exact Nat.le_add_left ..
  | .group inside => exact Nat.le_succ_of_le inside.height_le
  | .emptyArray => exact Nat.le_add_left ..
  | .array elements => exact Nat.succ_le_succ elements.height_le
  | .emptyObject => exact Nat.le_add_left ..
  | .object entries =>
    apply Nat.succ_le_succ
    rw [Expr.heightMembers_le_iff]
    exact fun m mem => entries.height_le m (mem_of_mem_members mem)
termination_by structural h

theorem Elements.height_le {d : Nat} {ts : List Terminal} {es : List Expr}
    (h : Elements d ts es) : Expr.heightList es ≤ 3 * d + 3 := by
  match h with
  | .one pipeline => exact Nat.max_le.mpr ⟨pipeline.height_le, Nat.zero_le _⟩
  | .more pipeline elements => exact Nat.max_le.mpr ⟨pipeline.height_le, elements.height_le⟩
termination_by structural h

theorem Entries.height_le {d : Nat} {ts : List Terminal} {entries : List (String × Expr)}
    (h : Entries d ts entries) : ∀ m ∈ entries, m.2.height ≤ 3 * d + 3 := by
  match h with
  | .one _ pipeline => exact List.forall_mem_singleton.mpr pipeline.height_le
  | .more _ pipeline rest => exact List.forall_mem_cons.mpr ⟨pipeline.height_le, rest.height_le⟩
termination_by structural h

end

end Grammar

/-- The nesting limit bounds the height of every tree that is read, whatever the length of the
    source. So many calls inside one another make the plain data of such a tree and its source text,
    or find out what stands in their way. -/
theorem height_le_of_readSource {limits : Limits} {source : String} {e : Expr}
    (h : readSource limits source = .ok e ∨
      ∃ ceiling, readSourceBelowCeiling limits source ceiling = .ok e) :
    e.height ≤ 3 * (limits.depth + 1) ∧
      ∀ calls, 3 * (limits.depth + 1) ≤ calls →
        Expr.nested Expr.toDataCall calls e = some e.toData ∧
        Expr.nested Expr.writeCall calls e = some e.write := by
  obtain ⟨limits', le, read⟩ := exists_readSource h
  obtain ⟨as, -, derived⟩ := readSource_eq_ok_iff.mp read
  have bounded : e.height ≤ 3 * (limits.depth + 1) :=
    derived.height_le.trans (Nat.mul_le_mul_left 3 (Nat.succ_le_succ le))
  refine ⟨bounded, fun calls enough => ⟨?_, ?_⟩⟩
  · exact Expr.nested_of_height_le Expr.toDataCall_eq (bounded.trans enough)
  · exact Expr.nested_of_height_le Expr.writeCall_eq (bounded.trans enough)

theorem height_le_of_readSource_array :
    let inner : Expr := .application (.reference ["g"]) [.literal .null .null]
    let e : Expr := .pipeline [.reference ["a"],
      .application (.reference ["f"]) [.array [.pipeline [.reference ["b"], inner]]]]
    readSource ⟨1, by decide⟩ "a | f [b | g null]" = .ok e ∧ e.height = 6 ∧
      (e.height ≤ 3 * (1 + 1) ∧ ∀ calls, 3 * (1 + 1) ≤ calls →
        Expr.nested Expr.toDataCall calls e = some e.toData ∧
        Expr.nested Expr.writeCall calls e = some e.write) := by
  intro inner e
  have read : readSource ⟨1, by decide⟩ "a | f [b | g null]" = .ok e := by rfl
  exact ⟨read, rfl, height_le_of_readSource (.inl read)⟩

end PipeExpr
