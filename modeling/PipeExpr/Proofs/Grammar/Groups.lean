import Mathlib.Algebra.Order.BigOperators.Group.List
import Mathlib.Algebra.Order.Ring.Nat
import Mathlib.Data.List.Nodup
import Mathlib.Data.List.Perm.Subperm
import PipeExpr.Proofs.Grammar.Canonical

set_option autoImplicit false

namespace PipeExpr.Grammar
open PipeExpr.Expr (parenthesized)
open Terminal (symbol)

/-- How many parentheses are opened. -/
def groups (ts : List Terminal) : Nat :=
  ts.count (symbol "(")

theorem groups_append (ts us : List Terminal) : groups (ts ++ us) = groups ts + groups us :=
  List.count_append

theorem groups_le_cons (a : Terminal) (ts : List Terminal) : groups ts ≤ groups (a :: ts) :=
  List.count_le_count_cons

theorem le_groups_separated {ts us : List Terminal} {m n : Nat} (le : m ≤ groups ts)
    (le' : n ≤ groups us) (a : Terminal) : m + n ≤ groups (ts ++ a :: us) := by
  rw [groups_append]
  exact Nat.add_le_add le (le'.trans (groups_le_cons a us))

theorem groups_symbol {s : String} (h : s ≠ "(") (ts : List Terminal) :
    groups (symbol s :: ts) = groups ts := by
  apply List.count_cons_of_ne
  rw [symbol, symbol]
  simpa using h

theorem groups_cons_of_kind {kind : TokenKind} (h : kind ≠ .special) (v : Scalar)
    (ts : List Terminal) : groups (⟨kind, v⟩ :: ts) = groups ts := by
  apply List.count_cons_of_ne
  rw [symbol]
  simp [h]

theorem groups_group (ts : List Terminal) :
    groups (symbol "(" :: ts ++ [symbol ")"]) = groups ts + 1 := by
  rw [groups_append, groups, groups, List.count_cons_self]
  rfl

theorem groups_bracket {opener closer : String} (h : opener ≠ "(" ∧ closer ≠ "(")
    (ts : List Terminal) : groups (symbol opener :: ts ++ [symbol closer]) = groups ts := by
  rw [groups_append, groups_symbol h.1, groups_symbol h.2]
  rfl

theorem groups_intercalate {separator : List Terminal} (bare : groups separator = 0)
    (rows : List (List Terminal)) :
    groups (separator.intercalate rows) = (rows.map groups).sum := by
  induction rows with
  | nil => rfl
  | cons row rows ih =>
    cases rows with
    | nil => simp
    | cons next rows =>
      rw [List.intercalate_cons_cons, groups_append, groups_append, ih, bare]
      rfl

theorem groups_segmentTerminals (segments : List String) :
    groups (Expr.segmentTerminals segments) = 0 := by
  induction segments with
  | nil => rfl
  | cons s segments ih =>
    rw [Expr.segmentTerminals, List.flatMap_cons, ← Expr.segmentTerminals, groups_append, ih]
    rfl

/-- How many parentheses the tree takes in a place where some trees need them. -/
def groupsIn (needed : Expr → Bool) (e : Expr) : Nat :=
  groups (parenthesized (needed e) e.terminals)

variable {needed needed' : Expr → Bool}

theorem groupsIn_eq (needed : Expr → Bool) (e : Expr) :
    groupsIn needed e = groups e.terminals + (needed e).toNat := by
  rw [groupsIn]
  cases needed e with
  | true => exact groups_group e.terminals
  | false => rfl

theorem groupsIn_mono {e : Expr} (h : needed e = true → needed' e = true) :
    groupsIn needed e ≤ groupsIn needed' e := by
  rw [groupsIn_eq, groupsIn_eq]
  exact Nat.add_le_add_left (Bool.toNat_le_toNat h) _

theorem groups_row {separator : List Terminal} (bare : groups separator = 0)
    (needed : Expr → Bool) (es : List Expr) :
    groups (separator.intercalate (Expr.terminalsList needed es)) =
      (es.map (groupsIn needed)).sum := by
  rw [groups_intercalate bare, Expr.terminalsList_eq_map, List.map_map]
  rfl

theorem groups_application (function : Expr) (arguments : List Expr) :
    groups (Expr.application function arguments).terminals =
      ((function :: arguments).map (groupsIn Expr.isComposite)).sum := by
  rw [Expr.terminals, ← Expr.terminalsList, groups_row rfl]

theorem groups_pipeline (stages : List Expr) :
    groups (Expr.pipeline stages).terminals = (stages.map (groupsIn Expr.isPipeline)).sum := by
  rw [Expr.terminals, groups_row rfl]

theorem groups_array (es : List Expr) :
    groups (Expr.array es).terminals = (es.map fun e => groups e.terminals).sum := by
  rw [Expr.terminals, groups_bracket (by decide), groups_row rfl]
  rfl

theorem groups_object (ms : List (String × Expr)) :
    groups (Expr.object ms).terminals = (ms.map fun m => groups m.2.terminals).sum := by
  rw [Expr.terminals, groups_bracket (by decide), groups_intercalate rfl,
    Expr.terminalsMembers_eq_map, List.map_map]
  rfl

theorem sum_members_le (f : String × Expr → Nat) (entries : List (String × Expr)) :
    ((members entries).map f).sum ≤ (entries.map f).sum := by
  have nodup : (members entries).Nodup := List.Nodup.of_map _ (nodup_keys_members entries)
  obtain ⟨kept, perm, sublist⟩ := nodup.subperm fun m => mem_of_mem_members
  calc ((members entries).map f).sum
      = (kept.map f).sum := (perm.map f).sum_eq.symm
    _ ≤ (entries.map f).sum := (sublist.map f).sum_le_sum fun _ _ => Nat.zero_le _

-- Operands are counted with the parentheses that they need as operands, stages with those that they
-- need as stages. An operand that is a whole stage, or a stage that is a whole pipeline, may be
-- counted with more than its new place asks for.
mutual

theorem Pipeline.groups_le {d : Nat} {ts : List Terminal} {e : Expr} (h : Pipeline d ts e) :
    groups e.terminals ≤ groups ts := by
  match h with
  | @Pipeline.ofStages d ts first [] stages =>
    have alone := stages.groups_le
    rw [List.map_singleton, List.sum_singleton, groupsIn_eq] at alone
    exact (Nat.le_add_right ..).trans alone
  | @Pipeline.ofStages d ts first (second :: others) stages =>
    rw [Expr.piped, if_neg (by simp), groups_pipeline]
    exact stages.groups_le
termination_by structural h

theorem Stages.groups_le {d : Nat} {ts : List Terminal} {es : List Expr} (h : Stages d ts es) :
    (es.map (groupsIn Expr.isPipeline)).sum ≤ groups ts := by
  match h with
  | .one application =>
    rw [List.map_singleton, List.sum_singleton]
    exact application.groups_le
  | .more application stages =>
    rw [List.map_cons, List.sum_cons]
    exact le_groups_separated application.groups_le stages.groups_le _
termination_by structural h

theorem Application.groups_le {d : Nat} {ts : List Terminal} {e : Expr}
    (h : Application d ts e) : groupsIn Expr.isPipeline e ≤ groups ts := by
  match h with
  | @Application.ofOperands d ts function [] operands =>
    have alone := operands.groups_le
    rw [List.map_singleton, List.sum_singleton] at alone
    refine (groupsIn_mono fun isPipeline => ?_).trans alone
    rw [Expr.isComposite, isPipeline, Bool.or_true]
  | @Application.ofOperands d ts function (first :: others) operands =>
    rw [Expr.applied, if_neg (by simp), groupsIn_eq, groups_application]
    exact operands.groups_le
termination_by structural h

theorem Operands.groups_le {d : Nat} {ts : List Terminal} {es : List Expr}
    (h : Operands d ts es) : (es.map (groupsIn Expr.isComposite)).sum ≤ groups ts := by
  match h with
  | .one primary =>
    rw [List.map_singleton, List.sum_singleton]
    exact primary.groups_le
  | .more primary operands =>
    rw [List.map_cons, List.sum_cons, groups_append]
    exact Nat.add_le_add primary.groups_le operands.groups_le
termination_by structural h

theorem Primary.groups_le {d : Nat} {ts : List Terminal} {e : Expr} (h : Primary d ts e) :
    groupsIn Expr.isComposite e ≤ groups ts := by
  match h with
  | .value v => cases v <;> exact Nat.le_refl _
  | @Primary.reference d ts segments v _ =>
    have name : TokenKind.reference ≠ .special := nofun
    rw [groupsIn_eq, Expr.terminals, groups_cons_of_kind name, groups_segmentTerminals]
    exact Nat.zero_le _
  | .group inside =>
    rw [groupsIn_eq, groups_group]
    exact Nat.add_le_add inside.groups_le (Bool.toNat_le _)
  | .emptyArray => exact Nat.le_refl _
  | .array elements =>
    rw [groupsIn_eq, groups_array, groups_bracket (by decide)]
    exact elements.groups_le
  | .emptyObject => exact Nat.le_refl _
  | @Primary.object d ts entries derived =>
    rw [groupsIn_eq, groups_object, groups_bracket (by decide)]
    exact (sum_members_le _ entries).trans derived.groups_le
termination_by structural h

theorem Elements.groups_le {d : Nat} {ts : List Terminal} {es : List Expr}
    (h : Elements d ts es) : (es.map fun e => groups e.terminals).sum ≤ groups ts := by
  match h with
  | .one pipeline =>
    rw [List.map_singleton, List.sum_singleton]
    exact pipeline.groups_le
  | .more pipeline elements =>
    rw [List.map_cons, List.sum_cons]
    exact le_groups_separated pipeline.groups_le elements.groups_le _
termination_by structural h

theorem Entries.groups_le {d : Nat} {ts : List Terminal} {entries : List (String × Expr)}
    (h : Entries d ts entries) :
    (entries.map fun m => groups m.2.terminals).sum ≤ groups ts := by
  match h with
  | .one key pipeline =>
    rw [List.map_singleton, List.sum_singleton]
    exact (pipeline.groups_le.trans (groups_le_cons (symbol ":") _)).trans (groups_le_cons _ _)
  | .more key pipeline rest =>
    refine Nat.le_trans ?_ ((groups_le_cons (symbol ":") _).trans (groups_le_cons _ _))
    rw [List.map_cons, List.sum_cons]
    exact le_groups_separated pipeline.groups_le rest.groups_le _
termination_by structural h

end

end PipeExpr.Grammar
