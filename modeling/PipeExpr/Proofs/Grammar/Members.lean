import Mathlib.Data.List.Basic
import Mathlib.Data.List.Induction
import PipeExpr.Expr.Basic

set_option autoImplicit false

namespace PipeExpr.Grammar

/-- The members of an object from its entries: each key once, in the place of its first entry and
    with the value of its last. -/
def members (entries : List (String × Expr)) : List (String × Expr) :=
  (entries.map (·.1)).eraseDups.filterMap fun key => entries.reverse.find? (·.1 == key)

theorem nodup_eraseDups (keys : List String) : keys.eraseDups.Nodup := by
  cases keys with
  | nil => exact List.nodup_nil
  | cons key rest =>
    rw [List.eraseDups_cons, List.nodup_cons]
    refine ⟨?_, nodup_eraseDups _⟩
    simp [List.mem_eraseDups]
termination_by keys.length
decreasing_by
  have shorter := List.length_filter_le (fun k => !k == key) rest
  simp only [List.length_cons]
  omega

theorem keys_members (entries : List (String × Expr)) :
    (members entries).map (·.1) = (entries.map (·.1)).eraseDups := by
  rw [members, List.map_filterMap]
  refine (List.filterMap_congr ?_).trans List.filterMap_some
  intro key mem
  rw [List.mem_eraseDups] at mem
  obtain ⟨entry, inEntries, rfl⟩ := List.mem_map.mp mem
  cases found : entries.reverse.find? (·.1 == entry.1) with
  | none => simpa using List.find?_eq_none.mp found entry (List.mem_reverse.mpr inEntries)
  | some last => simpa using List.find?_some found

theorem nodup_keys_members (entries : List (String × Expr)) :
    ((members entries).map (·.1)).Nodup := by
  rw [keys_members]
  exact nodup_eraseDups _

theorem mem_of_mem_members {entries : List (String × Expr)} {m : String × Expr}
    (h : m ∈ members entries) : m ∈ entries := by
  obtain ⟨key, -, found⟩ := List.mem_filterMap.mp h
  exact List.mem_reverse.mp (List.mem_of_find?_eq_some found)

theorem putMember_of_notMem {ms : List (String × Expr)} {key : String} {value : Expr}
    (h : key ∉ ms.map (·.1)) : putMember ms key value = ms ++ [(key, value)] := by
  induction ms with
  | nil => rfl
  | cons m rest ih =>
    simp only [List.map_cons, List.mem_cons, not_or] at h
    rw [putMember, if_neg (Ne.symm h.1), ih h.2, List.cons_append]

theorem putMember_of_mem {ms : List (String × Expr)} {key : String} {value : Expr}
    (nodup : (ms.map (·.1)).Nodup) (h : key ∈ ms.map (·.1)) :
    putMember ms key value = ms.map fun m => if m.1 = key then (key, value) else m := by
  induction ms with
  | nil => simp at h
  | cons m rest ih =>
    rw [List.map_cons, List.nodup_cons] at nodup
    by_cases eq : m.1 = key
    · have same : rest.map (fun m => if m.1 = key then (key, value) else m) = rest := by
        conv_rhs => rw [← List.map_id' rest]
        apply List.map_congr_left
        intro m' mem
        apply if_neg
        rintro rfl
        exact nodup.1 (eq ▸ List.mem_map_of_mem mem)
      simp only [putMember, eq, ↓reduceIte, List.map_cons, same]
    · have inRest : key ∈ rest.map (·.1) := by
        simpa [Ne.symm eq] using h
      simp only [putMember, eq, ↓reduceIte, List.map_cons, ih nodup.2 inRest]

theorem find?_reverse_concat (entries : List (String × Expr)) (entry : String × Expr)
    (key : String) : (entries ++ [entry]).reverse.find? (·.1 == key) =
      if entry.1 = key then some entry else entries.reverse.find? (·.1 == key) := by
  by_cases h : entry.1 = key <;> simp [h]

theorem eraseDups_concat_of_mem {keys : List String} {key : String} (h : key ∈ keys) :
    (keys ++ [key]).eraseDups = keys.eraseDups := by
  have none : [key].removeAll keys = [] := by simp [List.removeAll, h]
  rw [List.eraseDups_append, none, List.eraseDups_nil, List.append_nil]

theorem eraseDups_concat_of_notMem {keys : List String} {key : String} (h : key ∉ keys) :
    (keys ++ [key]).eraseDups = keys.eraseDups ++ [key] := by
  have one : [key].removeAll keys = [key] := by simp [List.removeAll, h]
  rw [List.eraseDups_append, one, List.eraseDups_cons, List.filter_nil, List.eraseDups_nil]

theorem members_concat_of_mem {entries : List (String × Expr)} {key : String} (value : Expr)
    (h : key ∈ entries.map (·.1)) :
    members (entries ++ [(key, value)]) =
      (members entries).map fun m => if m.1 = key then (key, value) else m := by
  simp only [members, List.map_append, List.map_cons, List.map_nil, eraseDups_concat_of_mem h,
    List.map_filterMap]
  apply List.filterMap_congr
  intro k mem
  rw [find?_reverse_concat]
  cases found : entries.reverse.find? (·.1 == k) with
  | none =>
    obtain ⟨entry, inEntries, rfl⟩ := List.mem_map.mp (List.mem_eraseDups.mp mem)
    have different := List.find?_eq_none.mp found entry (List.mem_reverse.mpr inEntries)
    exact absurd (beq_self_eq_true entry.1) different
  | some entry =>
    have eq : entry.1 = k := by simpa using List.find?_some found
    by_cases same : key = k <;> simp [eq, same, Ne.symm]

theorem members_concat_of_notMem {entries : List (String × Expr)} {key : String} (value : Expr)
    (h : key ∉ entries.map (·.1)) :
    members (entries ++ [(key, value)]) = members entries ++ [(key, value)] := by
  simp only [members, List.map_append, List.map_cons, List.map_nil, eraseDups_concat_of_notMem h,
    List.filterMap_append]
  congr 1
  · apply List.filterMap_congr
    intro k mem
    rw [find?_reverse_concat, if_neg]
    rintro rfl
    exact h (List.mem_eraseDups.mp mem)
  · rw [List.filterMap_cons, find?_reverse_concat, if_pos rfl, List.filterMap_nil]

theorem members_concat (entries : List (String × Expr)) (key : String) (value : Expr) :
    members (entries ++ [(key, value)]) = putMember (members entries) key value := by
  have known : key ∈ (members entries).map (·.1) ↔ key ∈ entries.map (·.1) := by
    rw [keys_members, List.mem_eraseDups]
  by_cases h : key ∈ entries.map (·.1)
  · rw [members_concat_of_mem value h, putMember_of_mem (nodup_keys_members entries) (known.mpr h)]
  · rw [members_concat_of_notMem value h, putMember_of_notMem (mt known.mp h)]

theorem members_of_nodup {entries : List (String × Expr)} (nodup : (entries.map (·.1)).Nodup) :
    members entries = entries := by
  induction entries using List.reverseRecOn with
  | nil => rfl
  | append_singleton entries entry ih =>
    rw [List.map_append, List.nodup_append] at nodup
    obtain ⟨before, -, different⟩ := nodup
    have fresh : entry.1 ∉ entries.map (·.1) :=
      fun mem => different _ mem _ (List.mem_singleton.mpr rfl) rfl
    rw [members_concat, ih before, putMember_of_notMem fresh]

theorem foldl_putMember (entries : List (String × Expr)) :
    entries.foldl (fun ms (key, value) => putMember ms key value) [] = members entries := by
  induction entries using List.reverseRecOn with
  | nil => rfl
  | append_singleton entries entry ih =>
    rw [List.foldl_append, ih, members_concat]
    rfl

end PipeExpr.Grammar
