import Mathlib.Data.List.Basic
import PipeExpr.Proofs.Scanning.Munch

set_option autoImplicit false

namespace PipeExpr
open Terminal (symbol)

/-- The terminals that a source can be scanned into. -/
inductive Terminal.Scanned : Terminal → Prop
  | symbol (s : String) : Scanned (symbol s)
  | string (s : String) : Scanned ⟨.value, .string s⟩
  | bool (b : Bool) : Scanned ⟨.value, .bool b⟩
  | null : Scanned ⟨.value, .null⟩
  | integer (n : Nat) : Scanned ⟨.value, .int n⟩
  | float (m : Magnitude) : Scanned ⟨.value, .float (.finite false m)⟩
  | root : Scanned ⟨.reference, .string rootMarker⟩
  | name {s : String} : IsIdentifier s → Scanned ⟨.reference, .string s⟩

structure Terminal.ScannedWithin (allowed : Int → Prop) (a : Terminal) : Prop where
  scanned : a.Scanned
  allows : ∀ n : Nat, a = ⟨.value, .int n⟩ → allowed n

theorem keyword_scanned {s : String} {v : Scalar} (h : keyword? s = some v) :
    Terminal.Scanned ⟨.value, v⟩ := by
  unfold keyword? at h
  split at h
  · cases h
    exact .bool true
  · split at h
    · cases h
      exact .bool false
    · split at h <;> cases h
      exact .null

theorem lexeme_scanned {text : List Char} {p : Pattern} {a : Terminal} (fits : p.Matches text)
    (value : p.read? text = some (a.kind, a.value)) : a.Scanned := by
  obtain ⟨kind, v⟩ := a
  cases fits with
  | symbol =>
    cases value
    exact .symbol _
  | decimal =>
    rw [Pattern.read?, Option.map_eq_some_iff] at value
    obtain ⟨m, -, eq⟩ := value
    cases eq
    exact .float m
  | integer =>
    rw [Pattern.read?] at value
    split at value <;> cases value
    exact .integer _
  | quotation =>
    cases value
    exact .string _
  | @word c cs start inside =>
    simp only [Pattern.read?] at value
    split at value
    case h_1 known =>
      cases value
      exact keyword_scanned known
    case h_2 unknown =>
      cases value
      exact .name ⟨⟨c, cs, String.toList_ofList, start, inside⟩, keyword?_eq_none_iff.mp unknown⟩
  | root =>
    cases value
    exact .root

theorem Lexes.scanned {cs : List Char} {as : List Terminal} (h : Lexes cs as) :
    ∀ a ∈ as, a.Scanned := by
  induction h with
  | nil => exact List.forall_mem_nil _
  | blank _ _ ih => exact ih
  | @lexeme c text rest p a as _ first value _ ih =>
    have fits := Pattern.matches_of_length? (Pattern.length?_of_first? first)
    rw [List.cons_append, List.take_succ_cons, List.take_left] at fits
    exact List.forall_mem_cons.mpr ⟨lexeme_scanned fits value, ih⟩

variable {allowed : Int → Prop}

theorem Terminal.ScannedWithin.regular {v : Scalar} (h : ScannedWithin allowed ⟨.value, v⟩) :
    (Expr.ofScalar v).Regular allowed := by
  obtain ⟨scanned, allows⟩ := h
  cases scanned with
  | string s => exact .string s
  | bool b => exact .boolean b
  | null => exact .null
  | integer n => exact .integer n (allows n rfl)
  | float m => exact .float m

theorem Terminal.Scanned.identifier {v : Scalar} (h : Scanned ⟨.reference, v⟩) :
    v = .string rootMarker ∨ IsIdentifier v.text := by
  cases h with
  | root => exact .inl rfl
  | name identifier => exact .inr identifier

namespace Grammar

theorem Segments.identifiers {ts : List Terminal} {segments : List String}
    (h : Segments ts segments) (scanned : ∀ a ∈ ts, a.Scanned) :
    ∀ s ∈ segments, IsIdentifier s := by
  induction h with
  | nil => exact List.forall_mem_nil _
  | cons v notRoot _ ih =>
    obtain ⟨first, others⟩ := List.forall_mem_cons.mp (List.forall_mem_cons.mp scanned).2
    exact List.forall_mem_cons.mpr ⟨first.identifier.resolve_left notRoot, ih others⟩

theorem scanned_inside {opener closer : Terminal} {ts : List Terminal}
    (scanned : ∀ a ∈ opener :: ts ++ [closer], a.ScannedWithin allowed) :
    ∀ a ∈ ts, a.ScannedWithin allowed :=
  (List.forall_mem_cons.mp (List.forall_mem_append.mp scanned).1).2

mutual

theorem Pipeline.regular_within {d : Nat} {ts : List Terminal} {e : Expr} (h : Pipeline d ts e)
    (scanned : ∀ a ∈ ts, a.ScannedWithin allowed) : e.Regular allowed := by
  match h with
  | @Pipeline.ofStages d ts first [] stages =>
    exact stages.regular_within scanned first List.mem_cons_self
  | @Pipeline.ofStages d ts first (second :: others) stages =>
    exact .pipeline (by simp) (stages.regular_within scanned)
termination_by structural h

theorem Stages.regular_within {d : Nat} {ts : List Terminal} {es : List Expr}
    (h : Stages d ts es) (scanned : ∀ a ∈ ts, a.ScannedWithin allowed) :
    ∀ e ∈ es, e.Regular allowed := by
  match h with
  | .one application =>
    exact List.forall_mem_singleton.mpr (application.regular_within scanned)
  | .more application stages =>
    obtain ⟨before, after⟩ := List.forall_mem_append.mp scanned
    have others := stages.regular_within (List.forall_mem_cons.mp after).2
    exact List.forall_mem_cons.mpr ⟨application.regular_within before, others⟩
termination_by structural h

theorem Application.regular_within {d : Nat} {ts : List Terminal} {e : Expr}
    (h : Application d ts e) (scanned : ∀ a ∈ ts, a.ScannedWithin allowed) : e.Regular allowed := by
  match h with
  | @Application.ofOperands d ts function [] operands =>
    exact operands.regular_within scanned function List.mem_cons_self
  | @Application.ofOperands d ts function (first :: others) operands =>
    obtain ⟨head, arguments⟩ := List.forall_mem_cons.mp (operands.regular_within scanned)
    exact .application (by simp) head arguments
termination_by structural h

theorem Operands.regular_within {d : Nat} {ts : List Terminal} {es : List Expr}
    (h : Operands d ts es) (scanned : ∀ a ∈ ts, a.ScannedWithin allowed) :
    ∀ e ∈ es, e.Regular allowed := by
  match h with
  | .one primary => exact List.forall_mem_singleton.mpr (primary.regular_within scanned)
  | .more primary operands =>
    obtain ⟨before, after⟩ := List.forall_mem_append.mp scanned
    exact List.forall_mem_cons.mpr ⟨primary.regular_within before, operands.regular_within after⟩
termination_by structural h

theorem Primary.regular_within {d : Nat} {ts : List Terminal} {e : Expr} (h : Primary d ts e)
    (scanned : ∀ a ∈ ts, a.ScannedWithin allowed) : e.Regular allowed := by
  match h with
  | .value v => exact (scanned _ List.mem_cons_self).regular
  | .reference v segments =>
    obtain ⟨head, others⟩ := List.forall_mem_cons.mp scanned
    refine .reference ?_ (segments.identifiers fun a mem => (others a mem).scanned)
    rcases head.scanned.identifier with rfl | identifier
    · exact .inl rfl
    · exact .inr identifier
  | .group inside => exact inside.regular_within (scanned_inside scanned)
  | .emptyArray => exact .array (List.forall_mem_nil _)
  | .array elements => exact .array (elements.regular_within (scanned_inside scanned))
  | .emptyObject => exact .object List.nodup_nil (List.forall_mem_nil _)
  | @Primary.object d ts entries derived =>
    have parts := derived.regular_within (scanned_inside scanned)
    exact .object (nodup_keys_members entries) fun m mem => parts m (mem_of_mem_members mem)
termination_by structural h

theorem Elements.regular_within {d : Nat} {ts : List Terminal} {es : List Expr}
    (h : Elements d ts es) (scanned : ∀ a ∈ ts, a.ScannedWithin allowed) :
    ∀ e ∈ es, e.Regular allowed := by
  match h with
  | .one pipeline => exact List.forall_mem_singleton.mpr (pipeline.regular_within scanned)
  | .more pipeline elements =>
    obtain ⟨before, after⟩ := List.forall_mem_append.mp scanned
    have others := elements.regular_within (List.forall_mem_cons.mp after).2
    exact List.forall_mem_cons.mpr ⟨pipeline.regular_within before, others⟩
termination_by structural h

theorem Entries.regular_within {d : Nat} {ts : List Terminal} {entries : List (String × Expr)}
    (h : Entries d ts entries) (scanned : ∀ a ∈ ts, a.ScannedWithin allowed) :
    ∀ m ∈ entries, m.2.Regular allowed := by
  match h with
  | .one _ pipeline =>
    have value := (List.forall_mem_cons.mp (List.forall_mem_cons.mp scanned).2).2
    exact List.forall_mem_singleton.mpr (pipeline.regular_within value)
  | .more _ pipeline rest =>
    have behind := (List.forall_mem_cons.mp (List.forall_mem_cons.mp scanned).2).2
    obtain ⟨before, after⟩ := List.forall_mem_append.mp behind
    have others := rest.regular_within (List.forall_mem_cons.mp after).2
    exact List.forall_mem_cons.mpr ⟨pipeline.regular_within before, others⟩
termination_by structural h

end

theorem Pipeline.regular {d : Nat} {ts : List Terminal} {e : Expr} (h : Pipeline d ts e)
    (scanned : ∀ a ∈ ts, a.Scanned) : e.Regular fun _ => True :=
  h.regular_within fun a mem => ⟨scanned a mem, fun _ _ => trivial⟩

end Grammar

end PipeExpr
