import Mathlib.Data.List.Infix
import PipeExpr.Proofs.Grammar.Derivation

/-!
# Paths as they are written

The references in a row of terminals, and what becomes of them in the tree that the terminals
derive. Nothing but an object that repeats a key can drop a reference or move it.
-/

set_option autoImplicit false

namespace PipeExpr

namespace Expr

mutual

/-- The paths of the references in a tree, from left to right. -/
def pathsIn : Expr → List (List String)
  | array elements => pathsInList elements
  | object members => pathsInMembers members
  | reference path => [path]
  | application function arguments => function.pathsIn ++ pathsInList arguments
  | pipeline stages => pathsInList stages
  | literal .. | foreign _ => []

def pathsInList : List Expr → List (List String)
  | [] => []
  | e :: rest => e.pathsIn ++ pathsInList rest

def pathsInMembers : List (String × Expr) → List (List String)
  | [] => []
  | (_, e) :: rest => e.pathsIn ++ pathsInMembers rest

end

theorem pathsInList_singleton (e : Expr) : pathsInList [e] = e.pathsIn := by
  rw [pathsInList, pathsInList, List.append_nil]

theorem pathsInMembers_eq (ms : List (String × Expr)) :
    pathsInMembers ms = ms.flatMap (·.2.pathsIn) := by
  induction ms with
  | nil => rfl
  | cons m ms ih => rw [pathsInMembers, ih, List.flatMap_cons]

theorem pathsIn_ofScalar (v : Scalar) : (ofScalar v).pathsIn = [] := by
  cases v <;> rfl

theorem pathsIn_applied (function : Expr) (arguments : List Expr) :
    (applied function arguments).pathsIn = pathsInList (function :: arguments) := by
  cases arguments with
  | nil => exact (pathsInList_singleton function).symm
  | cons argument arguments => rfl

theorem pathsIn_piped (first : Expr) (others : List Expr) :
    (piped first others).pathsIn = pathsInList (first :: others) := by
  cases others with
  | nil => exact (pathsInList_singleton first).symm
  | cons second others => rfl

end Expr

namespace Grammar
open Terminal (symbol)

def segmentsAhead : List Terminal → List String × List Terminal
  | a :: ⟨.reference, v⟩ :: rest =>
    if a = symbol "." then (v.text :: (segmentsAhead rest).1, (segmentsAhead rest).2)
    else ([], a :: ⟨.reference, v⟩ :: rest)
  | ts => ([], ts)

theorem length_segmentsAhead_le (ts : List Terminal) :
    (segmentsAhead ts).2.length ≤ ts.length := by
  fun_induction segmentsAhead ts with
  | case1 v rest ih =>
    simp only [List.length_cons]
    omega
  | case2 | case3 => exact Nat.le_refl _

/-- The paths of the references, each as long as it can be. A name right before a colon is a key and
    no reference. -/
def writtenPaths : List Terminal → List (List String)
  | [] => []
  | a :: rest =>
    if a.kind = .reference ∧ rest.head? ≠ some (symbol ":") then
      (a.value.text :: (segmentsAhead rest).1) :: writtenPaths (segmentsAhead rest).2
    else writtenPaths rest
termination_by ts => ts.length
decreasing_by
  · exact Nat.lt_succ_of_le (length_segmentsAhead_le rest)
  · exact Nat.lt_succ_self _

/-- The terminals hold an object literal with these entries. -/
def HoldsObject (ts : List Terminal) (entries : List (String × Expr)) : Prop :=
  ∃ d body, symbol "\x7b" :: body ++ [symbol "\x7d"] <:+: ts ∧ Entries d body entries

def Follows (us : List Terminal) : Prop :=
  us.head? ≠ some (symbol ".") ∧ us.head? ≠ some (symbol ":")

variable {d : Nat} {ts us whole : List Terminal} {segments : List String} {s : String}

theorem writtenPaths_of_kind {a : Terminal} (h : a.kind ≠ .reference) (rest : List Terminal) :
    writtenPaths (a :: rest) = writtenPaths rest := by
  rw [writtenPaths, if_neg (fun both => h both.1)]

theorem writtenPaths_symbol (s : String) (rest : List Terminal) :
    writtenPaths (symbol s :: rest) = writtenPaths rest :=
  writtenPaths_of_kind (by simp [symbol]) rest

theorem writtenPaths_key (a : Terminal) (rest : List Terminal) :
    writtenPaths (a :: symbol ":" :: rest) = writtenPaths rest := by
  rw [writtenPaths, if_neg (fun both => both.2 rfl), writtenPaths_symbol]

theorem segmentsAhead_of_follows (follows : Follows us) : segmentsAhead us = ([], us) := by
  fun_cases segmentsAhead us with
  | case1 => exact absurd rfl follows.1
  | case2 | case3 => rfl

theorem Segments.segmentsAhead_append (h : Segments ts segments) (follows : Follows us) :
    segmentsAhead (ts ++ us) = (segments, us) := by
  induction h with
  | nil => exact segmentsAhead_of_follows follows
  | cons v _ _ ih =>
    rw [List.cons_append, List.cons_append, segmentsAhead, if_pos rfl, ih]

theorem Segments.writtenPaths_append (h : Segments ts segments) (v : Scalar)
    (follows : Follows us) :
    writtenPaths (⟨.reference, v⟩ :: (ts ++ us)) = (v.text :: segments) :: writtenPaths us := by
  have noKey : (ts ++ us).head? ≠ some (symbol ":") := by
    cases h with
    | nil => exact follows.2
    | cons => simp [symbol]
  rw [writtenPaths, if_pos ⟨rfl, noKey⟩, h.segmentsAhead_append follows]

theorem follows_symbol (h : s ≠ "." ∧ s ≠ ":") (us : List Terminal) :
    Follows (symbol s :: us) := by
  simpa [Follows, symbol] using h

theorem follows_of_kind {a : Terminal} (h : a.kind ≠ .special) (us : List Terminal) :
    Follows (a :: us) := by
  constructor <;> rintro ⟨⟩ <;> exact h rfl

theorem Primary.follows {e : Expr} (h : Primary d ts e) (us : List Terminal) :
    Follows (ts ++ us) := by
  cases h with
  | value | reference => exact follows_of_kind (by simp) _
  | group | emptyArray | array | emptyObject | object => exact follows_symbol (by simp) _

theorem Operands.follows {es : List Expr} (h : Operands d ts es) (us : List Terminal) :
    Follows (ts ++ us) := by
  cases h with
  | one primary => exact primary.follows us
  | more primary operands =>
    rw [List.append_assoc]
    exact primary.follows _

/-- A relation between rows that goes along with putting rows together. -/
structure Additive (R : List (List String) → List (List String) → Prop) : Prop where
  refl : ∀ ps, R ps ps
  trans : ∀ {ps qs rs}, R ps qs → R qs rs → R ps rs
  append : ∀ {ps qs ps' qs'}, R ps qs → R ps' qs' → R (ps ++ ps') (qs ++ qs')

/-- It also goes from the entries of every object in the terminals to its members. -/
structure Compatible (R : List (List String) → List (List String) → Prop) (ts : List Terminal) :
    Prop extends Additive R where
  object : ∀ entries, HoldsObject ts entries →
    R ((members entries).flatMap (·.2.pathsIn)) (entries.flatMap (·.2.pathsIn))

variable {R : List (List String) → List (List String) → Prop} {ps qs : List (List String)}

/-- The paths are related to those that the terminals write, whatever follows. -/
def Tells (R : List (List String) → List (List String) → Prop) (ts : List Terminal)
    (ps : List (List String)) : Prop :=
  ∀ us, Follows us → ∃ own, writtenPaths (ts ++ us) = own ++ writtenPaths us ∧ R ps own

namespace Tells

theorem written (h : Tells R ts ps) : R ps (writtenPaths ts) := by
  obtain ⟨own, eq, related⟩ := h [] ⟨nofun, nofun⟩
  rw [List.append_nil] at eq
  rw [eq, writtenPaths, List.append_nil]
  exact related

theorem append (add : Additive R) (h : Tells R ts ps) (h' : Tells R us qs)
    (follows : ∀ vs, Follows vs → Follows (us ++ vs)) : Tells R (ts ++ us) (ps ++ qs) := by
  intro vs behind
  obtain ⟨own', eq', related'⟩ := h' vs behind
  obtain ⟨own, eq, related⟩ := h (us ++ vs) (follows vs behind)
  exact ⟨own ++ own', by rw [List.append_assoc, eq, eq', List.append_assoc],
    add.append related related'⟩

theorem symbol_cons (s : String) (h : Tells R ts ps) : Tells R (symbol s :: ts) ps := by
  intro vs behind
  rw [List.cons_append, writtenPaths_symbol]
  exact h vs behind

theorem separated (add : Additive R) (hs : s ≠ "." ∧ s ≠ ":") (h : Tells R ts ps)
    (h' : Tells R us qs) : Tells R (ts ++ symbol s :: us) (ps ++ qs) :=
  h.append add (h'.symbol_cons s) fun _ _ => follows_symbol hs _

theorem key (a : Terminal) (h : Tells R ts ps) : Tells R (a :: symbol ":" :: ts) ps := by
  intro vs behind
  rw [List.cons_append, List.cons_append, writtenPaths_key]
  exact h vs behind

theorem symbols (add : Additive R) (s : String) : Tells R [symbol s] [] :=
  fun _ _ => ⟨[], writtenPaths_symbol s _, add.refl []⟩

theorem bracket (add : Additive R) {opener closer : String} (hc : closer ≠ "." ∧ closer ≠ ":")
    (h : Tells R ts ps) : Tells R (symbol opener :: ts ++ [symbol closer]) ps := by
  have all := (h.symbol_cons opener).append add (symbols add closer) fun _ _ => follows_symbol hc _
  rw [List.append_nil] at all
  exact all

theorem trans (add : Additive R) (h : Tells R ts ps) (related : R qs ps) : Tells R ts qs := by
  intro vs behind
  obtain ⟨own, eq, related'⟩ := h vs behind
  exact ⟨own, eq, add.trans related related'⟩

end Tells

/-! The parts of a row are stretches of it. -/

theorem infix_left (inside : ts ++ us <:+: whole) : ts <:+: whole :=
  (List.prefix_append ts us).isInfix.trans inside

theorem infix_right (inside : ts ++ us <:+: whole) : us <:+: whole :=
  (List.suffix_append ts us).isInfix.trans inside

theorem infix_tail {a : Terminal} (inside : a :: ts <:+: whole) : ts <:+: whole :=
  (List.suffix_cons a ts).isInfix.trans inside

mutual

theorem Pipeline.tells {d : Nat} {ts : List Terminal} {e : Expr} (h : Pipeline d ts e)
    (compat : Compatible R whole) (inside : ts <:+: whole) : Tells R ts e.pathsIn := by
  match h with
  | .ofStages stages =>
    rw [Expr.pathsIn_piped]
    exact stages.tells compat inside
termination_by structural h

theorem Stages.tells {d : Nat} {ts : List Terminal} {es : List Expr} (h : Stages d ts es)
    (compat : Compatible R whole) (inside : ts <:+: whole) : Tells R ts (Expr.pathsInList es) := by
  match h with
  | .one application =>
    rw [Expr.pathsInList_singleton]
    exact application.tells compat inside
  | .more application stages =>
    have first := application.tells compat (infix_left inside)
    have others := stages.tells compat (infix_tail (infix_right inside))
    exact first.separated compat.toAdditive (by simp) others
termination_by structural h

theorem Application.tells {d : Nat} {ts : List Terminal} {e : Expr} (h : Application d ts e)
    (compat : Compatible R whole) (inside : ts <:+: whole) : Tells R ts e.pathsIn := by
  match h with
  | .ofOperands operands =>
    rw [Expr.pathsIn_applied]
    exact operands.tells compat inside
termination_by structural h

theorem Operands.tells {d : Nat} {ts : List Terminal} {es : List Expr} (h : Operands d ts es)
    (compat : Compatible R whole) (inside : ts <:+: whole) : Tells R ts (Expr.pathsInList es) := by
  match h with
  | .one primary =>
    rw [Expr.pathsInList_singleton]
    exact primary.tells compat inside
  | .more primary operands =>
    have first := primary.tells compat (infix_left inside)
    have others := operands.tells compat (infix_right inside)
    exact first.append compat.toAdditive others fun vs _ => operands.follows vs
termination_by structural h

theorem Primary.tells {d : Nat} {ts : List Terminal} {e : Expr} (h : Primary d ts e)
    (compat : Compatible R whole) (inside : ts <:+: whole) : Tells R ts e.pathsIn := by
  match h with
  | .value v =>
    rw [Expr.pathsIn_ofScalar]
    exact fun us _ => ⟨[], writtenPaths_of_kind (by simp) us, compat.refl []⟩
  | .reference v segments =>
    exact fun us behind => ⟨[_], segments.writtenPaths_append v behind, compat.refl _⟩
  | .group pipeline =>
    have own := pipeline.tells compat (infix_tail (infix_left inside))
    exact own.bracket compat.toAdditive (by simp)
  | .emptyArray => exact (Tells.symbols compat.toAdditive "]").symbol_cons "["
  | .array elements =>
    have own := elements.tells compat (infix_tail (infix_left inside))
    exact own.bracket compat.toAdditive (by simp)
  | .emptyObject => exact (Tells.symbols compat.toAdditive "\x7d").symbol_cons "\x7b"
  | .object entries =>
    have own := entries.tells compat (infix_tail (infix_left inside))
    have kept := compat.object _ ⟨_, _, inside, entries⟩
    rw [Expr.pathsIn, Expr.pathsInMembers_eq]
    exact (own.trans compat.toAdditive kept).bracket compat.toAdditive (by simp)
termination_by structural h

theorem Elements.tells {d : Nat} {ts : List Terminal} {es : List Expr} (h : Elements d ts es)
    (compat : Compatible R whole) (inside : ts <:+: whole) : Tells R ts (Expr.pathsInList es) := by
  match h with
  | .one pipeline =>
    rw [Expr.pathsInList_singleton]
    exact pipeline.tells compat inside
  | .more pipeline elements =>
    have first := pipeline.tells compat (infix_left inside)
    have others := elements.tells compat (infix_tail (infix_right inside))
    exact first.separated compat.toAdditive (by simp) others
termination_by structural h

theorem Entries.tells {d : Nat} {ts : List Terminal} {entries : List (String × Expr)}
    (h : Entries d ts entries) (compat : Compatible R whole) (inside : ts <:+: whole) :
    Tells R ts (entries.flatMap (·.2.pathsIn)) := by
  match h with
  | .one _ pipeline =>
    rw [List.flatMap_singleton]
    exact (pipeline.tells compat (infix_tail (infix_tail inside))).key _
  | .more _ pipeline rest =>
    rw [List.flatMap_cons]
    have behindKey := infix_tail (infix_tail inside)
    have first := pipeline.tells compat (infix_left behindKey)
    have others := rest.tells compat (infix_tail (infix_right behindKey))
    exact (first.separated compat.toAdditive (by simp) others).key _
termination_by structural h

end

end Grammar

end PipeExpr
