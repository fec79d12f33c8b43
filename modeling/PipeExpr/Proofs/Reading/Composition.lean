import Mathlib.Data.List.Forall2
import PipeExpr.Proofs.Scanning.Pasting
import PipeExpr.Proofs.Writing.RoundTrip

set_option autoImplicit false

namespace PipeExpr
open Grammar
open Terminal (symbol)

/-- A source, the tree that it is read as, and the key that it gets as an entry of an object. -/
structure Part where
  source : String
  tree : Expr
  key : String := ""

namespace Part

def grouped (part : Part) : String :=
  "(" ++ part.source ++ ")"

def entry (part : Part) : String :=
  String.ofList (quotation part.key.toList) ++ ": " ++ part.source

def terminals (part : Part) : List Terminal :=
  match scan part.source with
  | .ok tokens => tokens.map Token.terminal
  | .error _ => []

/-- The source can stand in front of any delimiter, and the tree is derived there. -/
structure Placeable (d : Nat) (part : Part) : Prop where
  spells : Spells part.source.toList part.terminals
  derived : Pipeline d part.terminals part.tree

variable {limits : Limits} {part : Part} {d : Nat}

theorem placeable_of_read (h : readSource limits part.source = .ok part.tree) :
    part.Placeable limits.depth := by
  obtain ⟨tokens, scanned, read⟩ := readSourceBy_eq_ok_iff.mp h
  have lexes := scan_ok_iff.mp ⟨tokens, scanned, rfl⟩
  have terminals : part.terminals = tokens.map Token.terminal := by rw [Part.terminals, scanned]
  refine ⟨?_, ?_⟩ <;> rw [terminals]
  · exact lexes.spells
  · exact pipeline_of_readTokens read

namespace Placeable

theorem spells_grouped (h : part.Placeable d) :
    Spells part.grouped.toList (symbol "(" :: part.terminals ++ [symbol ")"]) := by
  rw [grouped, String.toList_append, String.toList_append]
  exact h.spells.bracket '(' ')' rfl rfl (by decide)

theorem derived_grouped (h : part.Placeable d) :
    Primary (d + 1) (symbol "(" :: part.terminals ++ [symbol ")"]) part.tree :=
  .group h.derived

theorem spells_entry (h : part.Placeable d) :
    Spells part.entry.toList (⟨.value, .string part.key⟩ :: symbol ":" :: part.terminals) := by
  intro rest as delimited lexes
  have value := (h.spells rest as delimited lexes).space.structural (c := ':') rfl
  rw [entry, String.toList_append, String.toList_append, String.toList_ofList, List.append_assoc,
    List.append_assoc]
  exact value.quotation part.key

end Placeable

end Part

variable {limits : Limits} {parts : List Part} {text : String} {ts : List Terminal} {e : Expr}
  {d : Nat}

theorem readSource_of_spells (spells : Spells text.toList ts)
    (derived : Pipeline limits.depth ts e) : readSource limits text = .ok e :=
  readSource_eq_ok_iff.mpr ⟨ts, spells.lexes, derived⟩

theorem spells_intercalate (separator : String) {ts : List Terminal} {text : Part → String}
    {item : Part → List Terminal} (separates : Separates separator.toList ts)
    (h : ∀ part ∈ parts, Spells (text part).toList (item part)) :
    Spells (separator.intercalate (parts.map text)).toList (ts.intercalate (parts.map item)) := by
  rw [String.toList_intercalate, ← joined_eq_intercalate, List.map_map]
  apply Spells.joined separates
  rw [List.forall₂_map_left_iff, List.forall₂_map_right_iff, List.forall₂_same]
  exact h

theorem spells_array (h : ∀ part ∈ parts, part.Placeable d) :
    Spells ("[" ++ ", ".intercalate (parts.map Part.source) ++ "]").toList
      (symbol "[" :: [symbol ","].intercalate (parts.map Part.terminals) ++ [symbol "]"]) := by
  rw [String.toList_append, String.toList_append]
  have row := spells_intercalate ", " separates_comma fun part mem => (h part mem).spells
  exact row.bracket '[' ']' rfl rfl (by decide)

theorem spells_object (h : ∀ part ∈ parts, part.Placeable d) :
    Spells ("\x7b" ++ ", ".intercalate (parts.map Part.entry) ++ "\x7d").toList
      (symbol "\x7b" :: [symbol ","].intercalate
        (parts.map fun part => ⟨.value, .string part.key⟩ :: symbol ":" :: part.terminals) ++
          [symbol "\x7d"]) := by
  rw [String.toList_append, String.toList_append]
  have row := spells_intercalate ", " separates_comma fun part mem => (h part mem).spells_entry
  exact row.bracket '\x7b' '\x7d' rfl rfl (by decide)

/-- Sources that are read within some limits are parts of other sources, which are read as the trees
    put together from theirs, with one more level of brackets. -/
theorem readSource_composed {limits deeper : Limits} (deep : limits.depth < deeper.depth)
    {parts : List Part} (nonempty : parts ≠ [])
    (read : ∀ part ∈ parts, readSource limits part.source = .ok part.tree) :
    (∀ part ∈ parts, readSource deeper part.grouped = .ok part.tree) ∧
    readSource deeper ("[" ++ ", ".intercalate (parts.map Part.source) ++ "]") =
      .ok (.array (parts.map Part.tree)) ∧
    readSource deeper ("\x7b" ++ ", ".intercalate (parts.map Part.entry) ++ "\x7d") =
      .ok (.object (members (parts.map fun part => (part.key, part.tree)))) ∧
    ∀ first others, parts = first :: others → others ≠ [] →
      readSource deeper (" | ".intercalate (parts.map Part.grouped)) =
        .ok (.pipeline (parts.map Part.tree)) ∧
      readSource deeper (" ".intercalate (parts.map Part.grouped)) =
        .ok (.application first.tree (others.map Part.tree)) := by
  have placeable : ∀ part ∈ parts, part.Placeable limits.depth :=
    fun part mem => Part.placeable_of_read (read part mem)
  have derived : ∀ part ∈ parts, Pipeline limits.depth part.terminals part.tree :=
    fun part mem => (placeable part mem).derived
  have grouped : ∀ part ∈ parts,
      Spells part.grouped.toList (symbol "(" :: part.terminals ++ [symbol ")"]) :=
    fun part mem => (placeable part mem).spells_grouped
  have primary : ∀ part ∈ parts,
      Primary deeper.depth (symbol "(" :: part.terminals ++ [symbol ")"]) part.tree :=
    fun part mem => (placeable part mem).derived_grouped.mono deep
  refine ⟨?_, ?_, ?_, ?_⟩
  · intro part mem
    exact readSource_of_spells (grouped part mem) (primary part mem).application.pipeline
  · have array := Primary.array (elements_intercalate nonempty derived)
    exact readSource_of_spells (spells_array placeable) (array.mono deep).application.pipeline
  · have object := Primary.object (entries_intercalate Part.key nonempty derived)
    exact readSource_of_spells (spells_object placeable) (object.mono deep).application.pipeline
  · rintro first others rfl more
    constructor
    · have stages := stages_intercalate nonempty fun part mem => (primary part mem).application
      have pipeline := Pipeline.ofStages stages
      rw [Expr.piped, if_neg (by simpa using more)] at pipeline
      exact readSource_of_spells (spells_intercalate " | " separates_pipe grouped) pipeline
    · have application := Application.ofOperands (operands_intercalate nonempty primary)
      rw [Expr.applied, if_neg (by simpa using more)] at application
      exact readSource_of_spells (spells_intercalate " " separates_space grouped)
        application.pipeline

theorem readSource_composed_pair :
    let limits : Limits := ⟨1, by decide⟩
    let deeper : Limits := ⟨2, by decide⟩
    let parts : List Part :=
      [⟨"f | g", .pipeline [.reference ["f"], .reference ["g"]], "k"⟩,
       ⟨"[7] ", .array [.literal .number (.int 7)], "k"⟩]
    limits.depth < deeper.depth ∧ parts ≠ [] ∧
      (∀ part ∈ parts, readSource limits part.source = .ok part.tree) ∧
      readSource deeper "\x7b\"k\": f | g, \"k\": [7] \x7d" =
        .ok (.object [("k", .array [.literal .number (.int 7)])]) ∧
      readSource deeper "(f | g) | ([7] )" = .ok (.pipeline (parts.map Part.tree)) := by
  intro limits deeper parts
  have deep : limits.depth < deeper.depth := by decide
  have nonempty : parts ≠ [] := List.cons_ne_nil _ _
  have read : ∀ part ∈ parts, readSource limits part.source = .ok part.tree :=
    List.forall_mem_cons.mpr ⟨by rfl, List.forall_mem_singleton.mpr (by rfl)⟩
  obtain ⟨-, -, object, rows⟩ := readSource_composed deep nonempty read
  obtain ⟨pipeline, -⟩ := rows _ _ rfl (List.cons_ne_nil _ _)
  exact ⟨deep, nonempty, read, object, pipeline⟩

end PipeExpr
