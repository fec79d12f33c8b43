import PipeExpr.Expr.Visit
import PipeExpr.Proofs.Expr.Regular
import PipeExpr.Proofs.Grammar.Derivation

set_option autoImplicit false

namespace PipeExpr
open Terminal (symbol)

namespace Expr

/-- Whether the tree is in parentheses where an operand is due. -/
def isComposite (e : Expr) : Bool :=
  e.isApplication || e.isPipeline

def parenthesized (needed : Bool) (ts : List Terminal) : List Terminal :=
  if needed then symbol "(" :: ts ++ [symbol ")"] else ts

def segmentTerminals (segments : List String) : List Terminal :=
  segments.flatMap fun s => [symbol ".", ⟨.reference, .string s⟩]

mutual

/-- The terminals of the source text of a tree. -/
def terminals : Expr → List Terminal
  | literal _ v | foreign v => [⟨.value, v⟩]
  | array elements =>
    symbol "[" :: [symbol ","].intercalate (terminalsList (fun _ => false) elements) ++ [symbol "]"]
  | object members =>
    symbol "\x7b" :: [symbol ","].intercalate (terminalsMembers members) ++ [symbol "\x7d"]
  | reference [] => []
  | reference (first :: others) => ⟨.reference, .string first⟩ :: segmentTerminals others
  | application function arguments =>
    [].intercalate (parenthesized function.isComposite function.terminals ::
      terminalsList isComposite arguments)
  | pipeline stages => [symbol "|"].intercalate (terminalsList isPipeline stages)

def terminalsList (group : Expr → Bool) : List Expr → List (List Terminal)
  | [] => []
  | e :: rest => parenthesized (group e) e.terminals :: terminalsList group rest

def terminalsMembers : List (String × Expr) → List (List Terminal)
  | [] => []
  | (key, e) :: rest =>
    (⟨.value, .string key⟩ :: symbol ":" :: e.terminals) :: terminalsMembers rest

end

theorem terminalsList_eq_map (group : Expr → Bool) (es : List Expr) :
    terminalsList group es = es.map fun e => parenthesized (group e) e.terminals := by
  induction es with
  | nil => rfl
  | cons e es ih => rw [terminalsList, ih, List.map_cons]

theorem terminalsMembers_eq_map (ms : List (String × Expr)) :
    terminalsMembers ms = ms.map fun m => ⟨.value, .string m.1⟩ :: symbol ":" :: m.2.terminals := by
  induction ms with
  | nil => rfl
  | cons m ms ih => rw [terminalsMembers, ih, List.map_cons]

theorem size_le_sizeList {e : Expr} {es : List Expr} (h : e ∈ es) : e.size ≤ sizeList es := by
  induction es with
  | nil => cases h
  | cons e' es ih =>
    rw [sizeList]
    rcases List.mem_cons.mp h with rfl | h
    · exact Nat.le_add_right ..
    · exact Nat.le_add_left_of_le (ih h)

theorem size_le_sizeMembers {m : String × Expr} {ms : List (String × Expr)} (h : m ∈ ms) :
    m.2.size ≤ sizeMembers ms := by
  rw [← sizeList_values]
  exact size_le_sizeList (List.mem_map_of_mem h)

end Expr

namespace Grammar
open PipeExpr.Expr (parenthesized)

/-- The canonical terminals derive the tree within `d` levels, as high up in the grammar as the tree
    allows. -/
structure Canonical (d : Nat) (e : Expr) : Prop where
  pipeline : Pipeline d e.terminals e
  application : e.isPipeline = false → Application d e.terminals e
  primary : e.isComposite = false → Primary d e.terminals e

def CanonicalIn (needed : Expr → Bool) (d : Nat) (e : Expr) : Prop :=
  ∃ k, k + (needed e).toNat = d ∧ Canonical k e

variable {d d' : Nat} {e : Expr} {ts : List Terminal}

theorem Primary.application (h : Primary d ts e) : Application d ts e :=
  .ofOperands (.one h)

theorem Application.pipeline (h : Application d ts e) : Pipeline d ts e :=
  .ofStages (.one h)

namespace Canonical

theorem mono (h : Canonical d e) (le : d ≤ d') : Canonical d' e :=
  ⟨h.pipeline.mono le, fun single => (h.application single).mono le,
    fun simple => (h.primary simple).mono le⟩

theorem ofPrimary (h : Primary d e.terminals e) : Canonical d e :=
  ⟨h.application.pipeline, fun _ => h.application, fun _ => h⟩

theorem bare {needed : Expr → Bool} (h : Canonical d e) (eq : needed e = false) :
    CanonicalIn needed d e :=
  ⟨d, by rw [eq]; rfl, h⟩

theorem inside (h : Canonical d e) (needed : Expr → Bool) : CanonicalIn needed (d + 1) e := by
  cases eq : needed e with
  | true => exact ⟨d, by rw [eq]; rfl, h⟩
  | false => exact (h.mono (Nat.le_succ d)).bare eq

end Canonical

namespace CanonicalIn

theorem canonical {needed : Expr → Bool} (h : CanonicalIn needed d e) : Canonical d e := by
  obtain ⟨k, rfl, canonical⟩ := h
  exact canonical.mono (Nat.le_add_right ..)

theorem weaken {needed needed' : Expr → Bool} (h : CanonicalIn needed d e)
    (fewer : needed' e = true → needed e = true) : CanonicalIn needed' d e := by
  cases eq : needed' e with
  | true =>
    obtain ⟨k, rfl, canonical⟩ := h
    exact ⟨k, by rw [eq, fewer eq], canonical⟩
  | false => exact h.canonical.bare eq

theorem primary (h : CanonicalIn Expr.isComposite d e) :
    Primary d (parenthesized e.isComposite e.terminals) e := by
  obtain ⟨k, rfl, canonical⟩ := h
  cases eq : e.isComposite with
  | true => exact .group canonical.pipeline
  | false => exact canonical.primary eq

theorem application (h : CanonicalIn Expr.isPipeline d e) :
    Application d (parenthesized e.isPipeline e.terminals) e := by
  obtain ⟨k, rfl, canonical⟩ := h
  cases eq : e.isPipeline with
  | true => exact Primary.application (.group canonical.pipeline)
  | false => exact canonical.application eq

end CanonicalIn

theorem row_intercalate {α : Type} {Row : List Terminal → List α → Prop}
    {item : α → List Terminal} {separator : List Terminal} {xs : List α} (nonempty : xs ≠ [])
    (one : ∀ x ∈ xs, Row (item x) [x])
    (more : ∀ x ∈ xs, ∀ ts ys, Row ts ys → Row (item x ++ separator ++ ts) (x :: ys)) :
    Row (separator.intercalate (xs.map item)) xs := by
  induction xs with
  | nil => exact absurd rfl nonempty
  | cons x xs ih =>
    cases xs with
    | nil =>
      rw [List.map_cons, List.map_nil, List.intercalate_singleton]
      exact one x List.mem_cons_self
    | cons y ys =>
      have others := ih (by simp) (fun x mem => one x (List.mem_cons_of_mem _ mem))
        fun x mem => more x (List.mem_cons_of_mem _ mem)
      rw [List.map_cons, List.map_cons, List.intercalate_cons_cons]
      exact more x List.mem_cons_self _ _ others

section
variable {α : Type} {xs : List α} {item : α → List Terminal} {tree : α → Expr}

theorem operands_intercalate (nonempty : xs ≠ [])
    (h : ∀ x ∈ xs, Primary d (item x) (tree x)) :
    Operands d ([].intercalate (xs.map item)) (xs.map tree) := by
  have row := @row_intercalate α (fun ts xs => Operands d ts (xs.map tree)) item [] xs nonempty
  refine row (fun x mem => .one (h x mem)) ?_
  intro x mem ts ys others
  rw [List.append_nil]
  exact .more (h x mem) others

theorem stages_intercalate (nonempty : xs ≠ [])
    (h : ∀ x ∈ xs, Application d (item x) (tree x)) :
    Stages d ([symbol "|"].intercalate (xs.map item)) (xs.map tree) := by
  have row := @row_intercalate α (fun ts xs => Stages d ts (xs.map tree)) item [symbol "|"] xs
    nonempty
  refine row (fun x mem => .one (h x mem)) ?_
  intro x mem ts ys others
  rw [List.append_assoc]
  exact .more (h x mem) others

theorem elements_intercalate (nonempty : xs ≠ [])
    (h : ∀ x ∈ xs, Pipeline d (item x) (tree x)) :
    Elements d ([symbol ","].intercalate (xs.map item)) (xs.map tree) := by
  have row := @row_intercalate α (fun ts xs => Elements d ts (xs.map tree)) item [symbol ","] xs
    nonempty
  refine row (fun x mem => .one (h x mem)) ?_
  intro x mem ts ys others
  rw [List.append_assoc]
  exact .more (h x mem) others

theorem entries_intercalate (key : α → String) (nonempty : xs ≠ [])
    (h : ∀ x ∈ xs, Pipeline d (item x) (tree x)) :
    Entries d
      ([symbol ","].intercalate
        (xs.map fun x => ⟨.value, .string (key x)⟩ :: symbol ":" :: item x))
      (xs.map fun x => (key x, tree x)) := by
  have row := @row_intercalate α (fun ts xs => Entries d ts (xs.map fun x => (key x, tree x)))
    (fun x => ⟨.value, .string (key x)⟩ :: symbol ":" :: item x) [symbol ","] xs nonempty
  refine row (fun x mem => .one (.text (key x)) (h x mem)) ?_
  intro x mem ts ys others
  rw [List.append_assoc]
  exact .more (.text (key x)) (h x mem) others

end

theorem operands_of_canonical {es : List Expr} (nonempty : es ≠ [])
    (h : ∀ e ∈ es, CanonicalIn Expr.isComposite d e) :
    Operands d ([].intercalate (Expr.terminalsList Expr.isComposite es)) es := by
  have row := operands_intercalate nonempty fun e mem => (h e mem).primary
  rw [List.map_id'] at row
  rw [Expr.terminalsList_eq_map]
  exact row

theorem stages_of_canonical {es : List Expr} (nonempty : es ≠ [])
    (h : ∀ e ∈ es, CanonicalIn Expr.isPipeline d e) :
    Stages d ([symbol "|"].intercalate (Expr.terminalsList Expr.isPipeline es)) es := by
  have row := stages_intercalate nonempty fun e mem => (h e mem).application
  rw [List.map_id'] at row
  rw [Expr.terminalsList_eq_map]
  exact row

theorem elements_of_canonical {es : List Expr} (nonempty : es ≠ [])
    (h : ∀ e ∈ es, Canonical d e) :
    Elements d ([symbol ","].intercalate (Expr.terminalsList (fun _ => false) es)) es := by
  have row := elements_intercalate nonempty fun e mem => (h e mem).pipeline
  rw [List.map_id'] at row
  rw [Expr.terminalsList_eq_map]
  exact row

theorem entries_of_canonical {ms : List (String × Expr)} (nonempty : ms ≠ [])
    (h : ∀ m ∈ ms, Canonical d m.2) :
    Entries d ([symbol ","].intercalate (Expr.terminalsMembers ms)) ms := by
  have row := entries_intercalate (·.1) nonempty fun m mem => (h m mem).pipeline
  rw [List.map_id'] at row
  rw [Expr.terminalsMembers_eq_map]
  exact row

theorem segments_segmentTerminals {segments : List String}
    (h : ∀ s ∈ segments, s ≠ rootMarker) :
    Segments (Expr.segmentTerminals segments) segments := by
  induction segments with
  | nil => exact .nil
  | cons s segments ih =>
    have notRoot : Scalar.string s ≠ .string rootMarker := by
      simpa using h s List.mem_cons_self
    exact .cons (.string s) notRoot (ih fun s mem => h s (List.mem_cons_of_mem _ mem))

namespace Canonical

theorem ofScalar (v : Scalar) : Canonical d (.ofScalar v) := by
  apply ofPrimary
  cases v <;> exact .value _

theorem array {es : List Expr} (h : ∀ e ∈ es, Canonical d e) : Canonical (d + 1) (.array es) := by
  apply ofPrimary
  cases es with
  | nil => exact .emptyArray
  | cons e es => exact .array (elements_of_canonical (by simp) h)

theorem object {ms : List (String × Expr)} (nodup : (ms.map (·.1)).Nodup)
    (h : ∀ m ∈ ms, Canonical d m.2) : Canonical (d + 1) (.object ms) := by
  apply ofPrimary
  cases ms with
  | nil => exact .emptyObject
  | cons m ms =>
    have derived := Primary.object (entries_of_canonical (by simp) h)
    rw [members_of_nodup nodup] at derived
    exact derived

theorem reference {first : String} {others : List String}
    (h : ∀ s ∈ others, s ≠ rootMarker) : Canonical d (.reference (first :: others)) :=
  .ofPrimary (.reference (.string first) (segments_segmentTerminals h))

theorem applicationOf {function : Expr} {arguments : List Expr} (nonempty : arguments ≠ [])
    (h : ∀ e ∈ function :: arguments, CanonicalIn Expr.isComposite d e) :
    Canonical d (.application function arguments) := by
  have derived := Application.ofOperands (operands_of_canonical (by simp) h)
  rw [Expr.applied, if_neg (by simpa using nonempty)] at derived
  exact ⟨derived.pipeline, fun _ => derived, nofun⟩

theorem pipelineOf {stages : List Expr} (long : 2 ≤ stages.length)
    (h : ∀ e ∈ stages, CanonicalIn Expr.isPipeline d e) : Canonical d (.pipeline stages) := by
  obtain ⟨first, others, rfl⟩ := List.exists_cons_of_length_pos (Nat.lt_of_succ_lt long)
  have nonempty : others ≠ [] := by
    rintro rfl
    rw [List.length_singleton] at long
    omega
  have derived := Pipeline.ofStages (stages_of_canonical (by simp) h)
  rw [Expr.piped, if_neg (by simpa using nonempty)] at derived
  exact ⟨derived, nofun, nofun⟩

end Canonical

/-- Every regular tree has its canonical derivation. -/
theorem canonical_of_regular {allowed : Int → Prop} (h : e.Regular allowed) :
    Canonical e.size e := by
  induction h with
  | string s => exact .ofScalar (.string s)
  | boolean b => exact .ofScalar (.bool b)
  | null => exact .ofScalar .null
  | integer n _ => exact .ofScalar (.int n)
  | float m => exact .ofScalar (.float (.finite false m))
  | array _ ih => exact .array fun e mem => (ih e mem).mono (Expr.size_le_sizeList mem)
  | object nodup _ ih =>
    exact .object nodup fun m mem => (ih m mem).mono (Expr.size_le_sizeMembers mem)
  | reference _ others => exact .reference fun s mem => (others s mem).ne_rootMarker
  | @application function arguments nonempty _ _ ihFunction ih =>
    apply Canonical.applicationOf nonempty
    intro e mem
    rcases List.mem_cons.mp mem with rfl | mem
    · exact (ihFunction.mono (Nat.le_add_right ..)).inside _
    · have small := Expr.size_le_sizeList mem
      exact ((ih e mem).mono (Nat.le_add_left_of_le small)).inside _
  | pipeline long _ ih =>
    exact .pipelineOf long fun e mem => ((ih e mem).mono (Expr.size_le_sizeList mem)).inside _

mutual

theorem Pipeline.canonical {d : Nat} {ts : List Terminal} {e : Expr} {allowed : Int → Prop}
    (h : Pipeline d ts e) (regular : e.Regular allowed) : Canonical d e := by
  match h with
  | @Pipeline.ofStages d ts first [] stages =>
    exact (stages.canonical first List.mem_cons_self regular).canonical
  | @Pipeline.ofStages d ts first (second :: others) stages =>
    cases regular with
    | pipeline long parts =>
      exact .pipelineOf long fun e mem => stages.canonical e mem (parts e mem)
termination_by structural h

theorem Stages.canonical {d : Nat} {ts : List Terminal} {es : List Expr} {allowed : Int → Prop}
    (h : Stages d ts es) :
    ∀ e ∈ es, e.Regular allowed → CanonicalIn Expr.isPipeline d e := by
  match h with
  | .one application =>
    exact List.forall_mem_singleton.mpr fun regular => application.canonical regular
  | .more application stages =>
    exact List.forall_mem_cons.mpr ⟨fun regular => application.canonical regular, stages.canonical⟩
termination_by structural h

theorem Application.canonical {d : Nat} {ts : List Terminal} {e : Expr} {allowed : Int → Prop}
    (h : Application d ts e) (regular : e.Regular allowed) :
    CanonicalIn Expr.isPipeline d e := by
  match h with
  | @Application.ofOperands d ts function [] operands =>
    have canonical := operands.canonical function List.mem_cons_self regular
    exact canonical.weaken fun isPipeline => by
      rw [Expr.isComposite, isPipeline, Bool.or_true]
  | @Application.ofOperands d ts function (first :: others) operands =>
    cases regular with
    | application nonempty regularFunction parts =>
      have first := operands.canonical function List.mem_cons_self regularFunction
      have others := fun e mem => operands.canonical e (List.mem_cons_of_mem _ mem) (parts e mem)
      have all := List.forall_mem_cons.mpr ⟨first, others⟩
      exact (Canonical.applicationOf nonempty all).bare rfl
termination_by structural h

theorem Operands.canonical {d : Nat} {ts : List Terminal} {es : List Expr}
    {allowed : Int → Prop} (h : Operands d ts es) :
    ∀ e ∈ es, e.Regular allowed → CanonicalIn Expr.isComposite d e := by
  match h with
  | .one primary =>
    exact List.forall_mem_singleton.mpr fun regular => primary.canonical regular
  | .more primary operands =>
    exact List.forall_mem_cons.mpr ⟨fun regular => primary.canonical regular, operands.canonical⟩
termination_by structural h

theorem Primary.canonical {d : Nat} {ts : List Terminal} {e : Expr} {allowed : Int → Prop}
    (h : Primary d ts e) (regular : e.Regular allowed) : CanonicalIn Expr.isComposite d e := by
  match h with
  | .value v =>
    apply (Canonical.ofScalar v).bare
    cases v <;> rfl
  | .reference v _ =>
    cases regular with
    | reference _ others =>
      exact (Canonical.reference fun s mem => (others s mem).ne_rootMarker).bare rfl
  | .group inside => exact (inside.canonical regular).inside _
  | .emptyArray => exact (Canonical.array (List.forall_mem_nil _)).bare rfl
  | .array elements =>
    cases regular with
    | array parts =>
      exact (Canonical.array fun e mem => elements.canonical e mem (parts e mem)).bare rfl
  | .emptyObject =>
    exact Canonical.bare (e := .object []) (.object List.nodup_nil (List.forall_mem_nil _)) rfl
  | .object entries =>
    cases regular with
    | object nodup parts =>
      refine (Canonical.object nodup fun m mem => ?_).bare rfl
      exact entries.canonical m (mem_of_mem_members mem) (parts m mem)
termination_by structural h

theorem Elements.canonical {d : Nat} {ts : List Terminal} {es : List Expr}
    {allowed : Int → Prop} (h : Elements d ts es) :
    ∀ e ∈ es, e.Regular allowed → Canonical d e := by
  match h with
  | .one pipeline =>
    exact List.forall_mem_singleton.mpr fun regular => pipeline.canonical regular
  | .more pipeline elements =>
    exact List.forall_mem_cons.mpr ⟨fun regular => pipeline.canonical regular, elements.canonical⟩
termination_by structural h

theorem Entries.canonical {d : Nat} {ts : List Terminal} {entries : List (String × Expr)}
    {allowed : Int → Prop} (h : Entries d ts entries) :
    ∀ m ∈ entries, m.2.Regular allowed → Canonical d m.2 := by
  match h with
  | .one _ pipeline =>
    exact List.forall_mem_singleton.mpr fun regular => pipeline.canonical regular
  | .more _ pipeline rest =>
    exact List.forall_mem_cons.mpr ⟨fun regular => pipeline.canonical regular, rest.canonical⟩
termination_by structural h

end

end Grammar

end PipeExpr
