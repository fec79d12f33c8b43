import PipeExpr.Proofs.Grammar.Members
import PipeExpr.Token.Basic

/-!
# The grammar

Derivations over lists of terminals, that is over tokens without their places and texts. Every
derivation carries how many levels of brackets may still be opened inside it. Neither the reading of
tokens nor its classification of them is mentioned here.
-/

set_option autoImplicit false

namespace PipeExpr

/-- What the grammar sees of a token. -/
structure Terminal where
  kind : TokenKind
  value : Scalar
deriving DecidableEq

def Token.terminal (t : Token) : Terminal :=
  ⟨t.kind, t.value⟩

def Terminal.symbol (s : String) : Terminal :=
  ⟨.special, .string s⟩

namespace Grammar
open Terminal (symbol)

inductive Key : Terminal → String → Prop
  | text (s : String) : Key ⟨.value, .string s⟩ s
  | name (v : Scalar) : v ≠ .string rootMarker → Key ⟨.reference, v⟩ v.text

/-- The part of a reference behind its first name. -/
inductive Segments : List Terminal → List String → Prop
  | nil : Segments [] []
  | cons {ts : List Terminal} {segments : List String} (v : Scalar) :
      v ≠ .string rootMarker → Segments ts segments →
        Segments (symbol "." :: ⟨.reference, v⟩ :: ts) (v.text :: segments)

mutual

inductive Pipeline : Nat → List Terminal → Expr → Prop
  | ofStages {d : Nat} {ts : List Terminal} {first : Expr} {others : List Expr} :
      Stages d ts (first :: others) → Pipeline d ts (.piped first others)

inductive Stages : Nat → List Terminal → List Expr → Prop
  | one {d : Nat} {ts : List Terminal} {e : Expr} : Application d ts e → Stages d ts [e]
  | more {d : Nat} {ts us : List Terminal} {e : Expr} {es : List Expr} :
      Application d ts e → Stages d us es → Stages d (ts ++ symbol "|" :: us) (e :: es)

inductive Application : Nat → List Terminal → Expr → Prop
  | ofOperands {d : Nat} {ts : List Terminal} {function : Expr} {arguments : List Expr} :
      Operands d ts (function :: arguments) → Application d ts (.applied function arguments)

inductive Operands : Nat → List Terminal → List Expr → Prop
  | one {d : Nat} {ts : List Terminal} {e : Expr} : Primary d ts e → Operands d ts [e]
  | more {d : Nat} {ts us : List Terminal} {e : Expr} {es : List Expr} :
      Primary d ts e → Operands d us es → Operands d (ts ++ us) (e :: es)

inductive Primary : Nat → List Terminal → Expr → Prop
  | value {d : Nat} (v : Scalar) : Primary d [⟨.value, v⟩] (.ofScalar v)
  | reference {d : Nat} {ts : List Terminal} {segments : List String} (v : Scalar) :
      Segments ts segments → Primary d (⟨.reference, v⟩ :: ts) (.reference (v.text :: segments))
  | group {d : Nat} {ts : List Terminal} {e : Expr} :
      Pipeline d ts e → Primary (d + 1) (symbol "(" :: ts ++ [symbol ")"]) e
  | emptyArray {d : Nat} : Primary (d + 1) [symbol "[", symbol "]"] (.array [])
  | array {d : Nat} {ts : List Terminal} {es : List Expr} :
      Elements d ts es → Primary (d + 1) (symbol "[" :: ts ++ [symbol "]"]) (.array es)
  | emptyObject {d : Nat} : Primary (d + 1) [symbol "\x7b", symbol "\x7d"] (.object [])
  | object {d : Nat} {ts : List Terminal} {entries : List (String × Expr)} :
      Entries d ts entries →
        Primary (d + 1) (symbol "\x7b" :: ts ++ [symbol "\x7d"]) (.object (members entries))

inductive Elements : Nat → List Terminal → List Expr → Prop
  | one {d : Nat} {ts : List Terminal} {e : Expr} : Pipeline d ts e → Elements d ts [e]
  | more {d : Nat} {ts us : List Terminal} {e : Expr} {es : List Expr} :
      Pipeline d ts e → Elements d us es → Elements d (ts ++ symbol "," :: us) (e :: es)

inductive Entries : Nat → List Terminal → List (String × Expr) → Prop
  | one {d : Nat} {k : Terminal} {key : String} {ts : List Terminal} {e : Expr} :
      Key k key → Pipeline d ts e → Entries d (k :: symbol ":" :: ts) [(key, e)]
  | more {d : Nat} {k : Terminal} {key : String} {ts us : List Terminal} {e : Expr}
      {entries : List (String × Expr)} :
      Key k key → Pipeline d ts e → Entries d us entries →
        Entries d (k :: symbol ":" :: (ts ++ symbol "," :: us)) ((key, e) :: entries)

end

theorem exists_level_inside {d d' : Nat} (le : d + 1 ≤ d') : ∃ k, d' = k + 1 ∧ d ≤ k :=
  ⟨d' - 1, by omega, by omega⟩

mutual

theorem Pipeline.mono {d d' : Nat} {ts : List Terminal} {e : Expr} (h : Pipeline d ts e)
    (le : d ≤ d') : Pipeline d' ts e := by
  match h with
  | .ofStages stages => exact .ofStages (stages.mono le)
termination_by structural h

theorem Stages.mono {d d' : Nat} {ts : List Terminal} {es : List Expr} (h : Stages d ts es)
    (le : d ≤ d') : Stages d' ts es := by
  match h with
  | .one application => exact .one (application.mono le)
  | .more application stages => exact .more (application.mono le) (stages.mono le)
termination_by structural h

theorem Application.mono {d d' : Nat} {ts : List Terminal} {e : Expr} (h : Application d ts e)
    (le : d ≤ d') : Application d' ts e := by
  match h with
  | .ofOperands operands => exact .ofOperands (operands.mono le)
termination_by structural h

theorem Operands.mono {d d' : Nat} {ts : List Terminal} {es : List Expr} (h : Operands d ts es)
    (le : d ≤ d') : Operands d' ts es := by
  match h with
  | .one primary => exact .one (primary.mono le)
  | .more primary operands => exact .more (primary.mono le) (operands.mono le)
termination_by structural h

theorem Primary.mono {d d' : Nat} {ts : List Terminal} {e : Expr} (h : Primary d ts e)
    (le : d ≤ d') : Primary d' ts e := by
  match h with
  | .value v => exact .value v
  | .reference v segments => exact .reference v segments
  | .group inside =>
    obtain ⟨k, rfl, inner⟩ := exists_level_inside le
    exact .group (inside.mono inner)
  | .emptyArray =>
    obtain ⟨k, rfl, -⟩ := exists_level_inside le
    exact .emptyArray
  | .array elements =>
    obtain ⟨k, rfl, inner⟩ := exists_level_inside le
    exact .array (elements.mono inner)
  | .emptyObject =>
    obtain ⟨k, rfl, -⟩ := exists_level_inside le
    exact .emptyObject
  | .object entries =>
    obtain ⟨k, rfl, inner⟩ := exists_level_inside le
    exact .object (entries.mono inner)
termination_by structural h

theorem Elements.mono {d d' : Nat} {ts : List Terminal} {es : List Expr} (h : Elements d ts es)
    (le : d ≤ d') : Elements d' ts es := by
  match h with
  | .one pipeline => exact .one (pipeline.mono le)
  | .more pipeline elements => exact .more (pipeline.mono le) (elements.mono le)
termination_by structural h

theorem Entries.mono {d d' : Nat} {ts : List Terminal} {entries : List (String × Expr)}
    (h : Entries d ts entries) (le : d ≤ d') : Entries d' ts entries := by
  match h with
  | .one key pipeline => exact .one key (pipeline.mono le)
  | .more key pipeline rest => exact .more key (pipeline.mono le) (rest.mono le)
termination_by structural h

end

end Grammar

end PipeExpr
