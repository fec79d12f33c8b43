import Mathlib.Data.List.Flatten
import Mathlib.Data.List.Nodup
import Mathlib.Data.List.Perm.Subperm
import PipeExpr.Proofs.Expr.Preorder
import PipeExpr.Proofs.Grammar.WrittenPaths
import PipeExpr.Proofs.Reading.Regularity

set_option autoImplicit false

namespace PipeExpr

namespace Expr

variable {allowed : Int → Prop} {e : Expr} {es ps : List Expr}

theorem pathsInList_append (es ps : List Expr) :
    pathsInList (es ++ ps) = pathsInList es ++ pathsInList ps := by
  induction es with
  | nil => rfl
  | cons e es ih => rw [List.cons_append, pathsInList, ih, pathsInList, List.append_assoc]

theorem pathsInList_values (ms : List (String × Expr)) :
    pathsInList (ms.map (·.2)) = pathsInMembers ms := by
  induction ms with
  | nil => rfl
  | cons m ms ih => rw [List.map_cons, pathsInList, ih, pathsInMembers]

theorem pathsIn_of_parts (parts : e.parts? = .ok ps) :
    e.pathsIn = e.path?.toList ++ pathsInList ps := by
  cases e with
  | literal | reference | array | application | pipeline =>
    cases parts
    rfl
  | object ms =>
    cases parts
    exact (pathsInList_values ms).symm
  | foreign => cases parts

theorem Regular.parts (h : e.Regular allowed) :
    ∃ ps, e.parts? = .ok ps ∧ ∀ p ∈ ps, p.Regular allowed := by
  cases h with
  | string | boolean | null | integer | float | reference => exact ⟨[], rfl, nofun⟩
  | array elements => exact ⟨_, rfl, elements⟩
  | object _ values =>
    refine ⟨_, rfl, fun p mem => ?_⟩
    obtain ⟨m, inside, rfl⟩ := List.mem_map.mp mem
    exact values m inside
  | application _ function arguments =>
    exact ⟨_, rfl, List.forall_mem_cons.mpr ⟨function, arguments⟩⟩
  | pipeline _ stages => exact ⟨_, rfl, stages⟩

theorem visitAll_of_regular (h : ∀ e ∈ es, e.Regular allowed) :
    ∃ nodes, visitAll es = .ok nodes ∧ nodes.filterMap path? = pathsInList es := by
  induction es using visitAll.induct with
  | case1 => exact ⟨[], by rw [visitAll], rfl⟩
  | case2 e rest err failed =>
    obtain ⟨ps, parts, -⟩ := (h e List.mem_cons_self).parts
    rw [parts] at failed
    cases failed
  | case3 e rest ps parts ih =>
    obtain ⟨regular, others⟩ := List.forall_mem_cons.mp h
    obtain ⟨ps', parts', regularParts⟩ := regular.parts
    rw [parts] at parts'
    cases parts'
    obtain ⟨nodes, visited, paths⟩ := ih (List.forall_mem_append.mpr ⟨regularParts, others⟩)
    refine ⟨e :: nodes, by rw [visitAll_cons_ok parts, visited]; rfl, ?_⟩
    rw [pathsInList, pathsIn_of_parts parts, List.append_assoc, ← pathsInList_append, ← paths]
    cases path : e.path? <;> simp [path]

theorem paths_of_regular (h : e.Regular allowed) : e.paths = .ok e.pathsIn := by
  obtain ⟨nodes, visited, paths⟩ := visitAll_of_regular (List.forall_mem_singleton.mpr h)
  rw [Expr.paths, visit, visited, Except.map, paths, pathsInList_singleton]

end Expr

namespace Grammar

variable {ts : List Terminal} {entries : List (String × Expr)}

/-- The members that hold a reference stand in the order of their entries. -/
def InOrder (entries : List (String × Expr)) : Prop :=
  ((members entries).filter fun m => !m.2.pathsIn.isEmpty).Sublist entries

theorem flatMap_filter_pathsIn (ms : List (String × Expr)) :
    (ms.filter fun m => !m.2.pathsIn.isEmpty).flatMap (·.2.pathsIn) =
      ms.flatMap (·.2.pathsIn) := by
  induction ms with
  | nil => rfl
  | cons m ms ih =>
    rw [List.filter_cons]
    split
    case isTrue => rw [List.flatMap_cons, List.flatMap_cons, ih]
    case isFalse none =>
      have empty : m.2.pathsIn = [] := by simpa using none
      rw [List.flatMap_cons, empty, List.nil_append, ih]

theorem compatible_subperm (ts : List Terminal) : Compatible List.Subperm ts where
  refl := List.Subperm.refl
  trans := List.Subperm.trans
  append := List.Subperm.append
  object entries _ := by
    have distinct : (members entries).Nodup := List.Nodup.of_map _ (nodup_keys_members entries)
    obtain ⟨ms, perm, kept⟩ := distinct.subperm fun _ mem => mem_of_mem_members mem
    exact ⟨_, perm.flatMap_right _, kept.flatMap _⟩

theorem compatible_sublist (h : ∀ entries, HoldsObject ts entries → InOrder entries) :
    Compatible List.Sublist ts where
  refl := List.Sublist.refl
  trans := List.Sublist.trans
  append := List.Sublist.append
  object entries held := by
    rw [← flatMap_filter_pathsIn]
    exact (h entries held).flatMap _

theorem compatible_eq
    (h : ∀ entries, HoldsObject ts entries → (entries.map (·.1)).Nodup) : Compatible Eq ts where
  refl _ := rfl
  trans := Eq.trans
  append
    | rfl, rfl => rfl
  object entries held := by rw [members_of_nodup (h entries held)]

end Grammar

open Grammar

theorem paths_of_read {limits : Limits} {source : String} {e : Expr}
    (h : readSource limits source = .ok e) : e.paths = .ok e.pathsIn := by
  obtain ⟨as, lexes, derived⟩ := readSource_eq_ok_iff.mp h
  exact Expr.paths_of_regular (derived.regular_within lexes.scanned_within)

/-- The references of a tree that is read are, some of them dropped, those that the source writes.
    They come in the order of the source as long as no object moves a member with a reference in
    front of an earlier one, and they are all of them if no object repeats a key. -/
theorem paths_of_readSource {limits : Limits} {source : String} {e : Expr}
    (h : readSource limits source = .ok e ∨
      ∃ ceiling, readSourceBelowCeiling limits source ceiling = .ok e) :
    ∃ tokens paths, scan source = .ok tokens ∧ e.paths = .ok paths ∧
      let ts := tokens.map Token.terminal
      paths.Subperm (writtenPaths ts) ∧
      ((∀ entries, HoldsObject ts entries → InOrder entries) →
        paths.Sublist (writtenPaths ts)) ∧
      ((∀ entries, HoldsObject ts entries → (entries.map (·.1)).Nodup) →
        paths = writtenPaths ts) := by
  obtain ⟨limits', -, read⟩ := exists_readSource h
  obtain ⟨as, lexes, derived⟩ := readSource_eq_ok_iff.mp read
  obtain ⟨tokens, scanned, rfl⟩ := scan_ok_iff.mpr lexes
  have whole := List.infix_refl (tokens.map Token.terminal)
  refine ⟨tokens, _, scanned, paths_of_read read, ?_, fun ordered => ?_, fun distinct => ?_⟩
  · exact (derived.tells (compatible_subperm _) whole).written
  · exact (derived.tells (compatible_sublist ordered) whole).written
  · exact (derived.tells (compatible_eq distinct) whole).written

theorem paths_of_readSource_single_key :
    let e : Expr := .application (.reference ["f"]) [.object [("k", .reference ["x", "y"])]]
    readSource {} "f \x7bk: x.y\x7d" = .ok e ∧ e.paths = .ok [["f"], ["x", "y"]] := by
  intro e
  have read : readSource {} "f \x7bk: x.y\x7d" = .ok e := by rfl
  obtain ⟨tokens, paths, scanned, eq, -, -, all⟩ := paths_of_readSource (.inl read)
  have terminals := congrArg (·.map (·.map Token.terminal)) scanned
  have row : tokens.map Token.terminal = [⟨.reference, .string "f"⟩, .symbol "\x7b",
      ⟨.reference, .string "k"⟩, .symbol ":", ⟨.reference, .string "x"⟩, .symbol ".",
      ⟨.reference, .string "y"⟩, .symbol "\x7d"] := (Except.ok.inj terminals).symm
  rw [row] at all
  refine ⟨read, ?_⟩
  rw [eq, all ?_]
  · simp [writtenPaths, segmentsAhead, Terminal.symbol, Scalar.text]
  · rintro entries ⟨d, body, inside, derived⟩
    cases derived with
    | one => exact List.nodup_singleton _
    | more =>
      have comma : Terminal.symbol "," ∈ _ := inside.subset (by simp)
      exact absurd comma (by decide)

/-- The last value of a repeated key comes out in the place of the first. -/
theorem paths_of_repeated_key :
    let e : Expr := .object [("a", .reference ["z"]), ("b", .reference ["y"])]
    readSource {} "\x7ba: x, b: y, a: z\x7d" = .ok e ∧ e.paths = .ok [["z"], ["y"]] ∧
      (∃ tokens, scan "\x7ba: x, b: y, a: z\x7d" = .ok tokens ∧
        writtenPaths (tokens.map Token.terminal) = [["x"], ["y"], ["z"]]) ∧
      ¬[["z"], ["y"]].Sublist [["x"], ["y"], ["z"]] := by
  intro e
  have read : readSource {} "\x7ba: x, b: y, a: z\x7d" = .ok e := by rfl
  have row : writtenPaths [.symbol "\x7b", ⟨.reference, .string "a"⟩, .symbol ":",
      ⟨.reference, .string "x"⟩, .symbol ",", ⟨.reference, .string "b"⟩, .symbol ":",
      ⟨.reference, .string "y"⟩, .symbol ",", ⟨.reference, .string "a"⟩, .symbol ":",
      ⟨.reference, .string "z"⟩, .symbol "\x7d"] = [["x"], ["y"], ["z"]] := by
    simp [writtenPaths, segmentsAhead, Terminal.symbol, Scalar.text]
  exact ⟨read, paths_of_read read, ⟨_, rfl, row⟩, by decide⟩

end PipeExpr
