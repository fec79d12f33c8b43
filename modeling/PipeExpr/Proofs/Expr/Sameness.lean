import Mathlib.Data.List.Nodup
import Mathlib.Data.List.Perm.Subperm
import PipeExpr.Expr.Same
import PipeExpr.Proofs.Expr.Typed
import PipeExpr.Proofs.Number.Value

set_option autoImplicit false

namespace PipeExpr.Expr

/-- The parts of two lists are alike place by place, the members of two objects whatever the order
    of their keys. -/
inductive Alike : Expr → Expr → Prop
  | literal (type : ScalarType) {v w : Scalar} : v.Alike w →
      Alike (.literal type v) (.literal type w)
  | array {es fs : List Expr} : es.length = fs.length → (∀ p ∈ es.zip fs, Alike p.1 p.2) →
      Alike (.array es) (.array fs)
  | object {ms ns : List (String × Expr)} : (ms.map (·.1)).Perm (ns.map (·.1)) →
      (∀ m ∈ ms, ∀ n ∈ ns, m.1 = n.1 → Alike m.2 n.2) → Alike (.object ms) (.object ns)
  | reference (path : List String) : Alike (.reference path) (.reference path)
  | application {f g : Expr} {es fs : List Expr} : Alike f g → es.length = fs.length →
      (∀ p ∈ es.zip fs, Alike p.1 p.2) → Alike (.application f es) (.application g fs)
  | pipeline {es fs : List Expr} : es.length = fs.length → (∀ p ∈ es.zip fs, Alike p.1 p.2) →
      Alike (.pipeline es) (.pipeline fs)

variable {a b : Expr} {es fs : List Expr} {ms ns : List (String × Expr)}

theorem sameList_eq_true_iff :
    sameList es fs = true ↔ es.length = fs.length ∧ ∀ p ∈ es.zip fs, p.1.same p.2 = true := by
  induction es generalizing fs with
  | nil => cases fs <;> simp [sameList]
  | cons e es ih =>
    cases fs with
    | nil => simp [sameList]
    | cons f fs =>
      rw [sameList, Bool.and_eq_true, ih, List.zip_cons_cons, List.forall_mem_cons,
        List.length_cons, List.length_cons, Nat.add_right_cancel_iff]
      exact and_left_comm

theorem sameMembers_eq_true_iff : sameMembers ms ns = true ↔
    ∀ m ∈ ms, ∃ e, member? ns m.1 = some e ∧ m.2.same e = true := by
  induction ms with
  | nil => simp [sameMembers]
  | cons m ms ih =>
    rw [sameMembers, Bool.and_eq_true, ih, List.forall_mem_cons]
    cases member? ns m.1 <;> simp

theorem value_of_key_eq_some_iff {α : Type} {entries : List (String × α)}
    (nodup : (entries.map (·.1)).Nodup) {key : String} {value : α} :
    (entries.find? (·.1 == key)).map (·.2) = some value ↔ (key, value) ∈ entries := by
  rw [Option.map_eq_some_iff]
  constructor
  · rintro ⟨entry, found, rfl⟩
    have same : entry.1 = key := by simpa using List.find?_some found
    rw [← same]
    exact List.mem_of_find?_eq_some found
  · intro mem
    have some : (entries.find? (·.1 == key)).isSome = true :=
      List.find?_isSome.mpr ⟨_, mem, beq_self_eq_true key⟩
    obtain ⟨entry, found⟩ := Option.isSome_iff_exists.mp some
    have same : entry.1 = key := by simpa using List.find?_some found
    have eq := List.inj_on_of_nodup_map nodup (List.mem_of_find?_eq_some found) mem same
    exact ⟨entry, found, by rw [eq]⟩

theorem same_object_iff (nodup : (ms.map (·.1)).Nodup) (nodup' : (ns.map (·.1)).Nodup) :
    (object ms).same (object ns) = true ↔ (ms.map (·.1)).Perm (ns.map (·.1)) ∧
      ∀ m ∈ ms, ∀ n ∈ ns, m.1 = n.1 → m.2.same n.2 = true := by
  rw [same, Bool.and_eq_true, beq_iff_eq, sameMembers_eq_true_iff]
  simp only [member?, value_of_key_eq_some_iff nodup']
  constructor
  · rintro ⟨length, found⟩
    have subset : ms.map (·.1) ⊆ ns.map (·.1) := by
      rintro key inFirst
      obtain ⟨m, mem, rfl⟩ := List.mem_map.mp inFirst
      obtain ⟨e, inside, -⟩ := found m mem
      exact List.mem_map.mpr ⟨(m.1, e), inside, rfl⟩
    refine ⟨(nodup.subperm subset).perm_of_length_le (by simp [length]), ?_⟩
    intro m mem n mem' key
    obtain ⟨e, inside, same⟩ := found m mem
    have eq := List.inj_on_of_nodup_map nodup' inside mem' key
    rw [← eq]
    exact same
  · rintro ⟨perm, same⟩
    refine ⟨by simpa using perm.length_eq, fun m mem => ?_⟩
    obtain ⟨n, inside, key⟩ := List.mem_map.mp (perm.subset (List.mem_map_of_mem mem))
    exact ⟨n.2, by rwa [← key], same m mem n inside key.symm⟩

theorem sameList_iff_alike
    (h : ∀ e ∈ es, ∀ f ∈ fs, e.same f = true ↔ e.Alike f) : sameList es fs = true ↔
      es.length = fs.length ∧ ∀ p ∈ es.zip fs, p.1.Alike p.2 := by
  rw [sameList_eq_true_iff]
  apply and_congr_right
  intro _
  apply forall₂_congr
  intro p mem
  obtain ⟨left, right⟩ := List.of_mem_zip mem
  exact h p.1 left p.2 right

theorem same_iff_alike (typed : a.Typed) (typed' : b.Typed) : a.same b = true ↔ a.Alike b := by
  induction typed generalizing b with
  | string | boolean | null | integer | float =>
    cases b with
    | literal type v =>
      rw [same, Bool.and_eq_true, beq_iff_eq, Scalar.same_iff_alike]
      constructor
      · rintro ⟨rfl, alike⟩
        exact .literal _ alike
      · rintro ⟨-, alike⟩
        exact ⟨rfl, alike⟩
    | _ => exact ⟨nofun, nofun⟩
  | array _ ih =>
    cases typed' with
    | array elements =>
      rw [same, sameList_iff_alike fun e mem f mem' => ih e mem (elements f mem')]
      constructor
      · rintro ⟨length, parts⟩
        exact .array length parts
      · intro alike
        cases alike with
        | array length parts => exact ⟨length, parts⟩
    | _ => exact ⟨nofun, nofun⟩
  | reference path =>
    cases typed' with
    | reference path' =>
      rw [same, beq_iff_eq]
      constructor
      · rintro rfl
        exact .reference path
      · rintro ⟨⟩
        rfl
    | _ => exact ⟨nofun, nofun⟩
  | object nodup _ ih =>
    cases typed' with
    | object nodup' values =>
      rw [same_object_iff nodup nodup']
      have parts := fun m mem n mem' => ih m mem (values n mem')
      constructor
      · rintro ⟨perm, same⟩
        exact .object perm fun m mem n mem' key => (parts m mem n mem').mp (same m mem n mem' key)
      · intro alike
        cases alike with
        | object perm alike =>
          exact ⟨perm,
            fun m mem n mem' key => (parts m mem n mem').mpr (alike m mem n mem' key)⟩
    | _ => exact ⟨nofun, nofun⟩
  | application _ _ ihFunction ihArguments =>
    cases typed' with
    | application function arguments =>
      rw [same, Bool.and_eq_true, ihFunction function,
        sameList_iff_alike fun e mem f mem' => ihArguments e mem (arguments f mem')]
      constructor
      · rintro ⟨head, length, parts⟩
        exact .application head length parts
      · intro alike
        cases alike with
        | application head length parts => exact ⟨head, length, parts⟩
    | _ => exact ⟨nofun, nofun⟩
  | pipeline _ ih =>
    cases typed' with
    | pipeline stages =>
      rw [same, sameList_iff_alike fun e mem f mem' => ih e mem (stages f mem')]
      constructor
      · rintro ⟨length, parts⟩
        exact .pipeline length parts
      · intro alike
        cases alike with
        | pipeline length parts => exact ⟨length, parts⟩
    | _ => exact ⟨nofun, nofun⟩

end PipeExpr.Expr
