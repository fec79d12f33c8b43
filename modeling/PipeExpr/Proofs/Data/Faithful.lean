import PipeExpr.Data.Basic
import PipeExpr.Proofs.Expr.Sameness

/-!
# Plain data are faithful

The plain data of two trees are the same if and only if the trees are. The kind of a node is in its
first field, so the keys of an object, which are fields of a record further inside, are never taken
for the fields that a node has by its kind.
-/

set_option autoImplicit false

namespace PipeExpr

namespace Data

variable {xs ys whole : List (String × Data)}

theorem sameFields_of_names (names : xs.map (·.1) = ys.map (·.1))
    (found : ∀ n ∈ ys, field? whole n.1 = some n.2) :
    sameFields xs whole = sameList (xs.map (·.2)) (ys.map (·.2)) := by
  induction xs generalizing ys with
  | nil =>
    cases ys with
    | nil => rfl
    | cons y ys => cases names
  | cons x xs ih =>
    cases ys with
    | nil => cases names
    | cons y ys =>
      obtain ⟨first, others⟩ := List.cons.inj names
      obtain ⟨foundFirst, foundOthers⟩ := List.forall_mem_cons.mp found
      rw [sameFields, show x.1 = y.1 from first, foundFirst, ih others foundOthers]
      rfl

theorem same_record_of_names (names : xs.map (·.1) = ys.map (·.1))
    (nodup : (ys.map (·.1)).Nodup) :
    (record xs).same (record ys) = sameList (xs.map (·.2)) (ys.map (·.2)) := by
  have lengths : xs.length = ys.length := by simpa using congrArg List.length names
  have found : ∀ n ∈ ys, field? ys n.1 = some n.2 :=
    fun n mem => (Expr.value_of_key_eq_some_iff nodup).mpr mem
  rw [same, sameFields_of_names names found, lengths, beq_self_eq_true, Bool.true_and]

theorem sameFields_eq_true_iff : sameFields xs ys = true ↔
    ∀ f ∈ xs, ∃ y, field? ys f.1 = some y ∧ f.2.same y = true := by
  induction xs with
  | nil => simp [sameFields]
  | cons x xs ih =>
    rw [sameFields, Bool.and_eq_true, ih, List.forall_mem_cons]
    cases field? ys x.1 <;> simp

theorem same_eq_false_of_field {name s t : String} (mem : (name, text s) ∈ xs)
    (found : field? ys name = some (text t)) (ne : s ≠ t) :
    (record xs).same (record ys) = false := by
  rw [Bool.eq_false_iff]
  intro equal
  rw [same, Bool.and_eq_true, sameFields_eq_true_iff] at equal
  obtain ⟨y, found', equalText⟩ := equal.2 _ mem
  rw [found, Option.some.injEq] at found'
  rw [← found'] at equalText
  exact ne (beq_iff_eq.mp equalText)

end Data

theorem ScalarType.name_inj {t u : ScalarType} (h : t.name = u.name) : t = u := by
  cases t <;> cases u <;> first | rfl | exact absurd h (by decide)

/-- What two typed nodes have to share to be the same. -/
inductive Shape where
  | literal (type : ScalarType)
  | array
  | object
  | reference
  | application
  | pipeline
deriving DecidableEq

def Shape.header : Shape → List (String × Data)
  | literal type => [("type", .text "literal"), ("valueType", .text type.name)]
  | array => [("type", .text "literal"), ("valueType", .text "array")]
  | object => [("type", .text "literal"), ("valueType", .text "object")]
  | reference => [("type", .text "reference")]
  | application => [("type", .text "application")]
  | pipeline => [("type", .text "pipeline")]

/-- The fields behind the headers do not count where the headers differ. -/
theorem Data.same_eq_false_of_shape_ne {s t : Shape} (ne : s ≠ t) (xs ys : List (String × Data)) :
    (record (s.header ++ xs)).same (record (t.header ++ ys)) = false := by
  have byKind : ∀ {kind kind' : String} {xs ys : List (String × Data)}, kind ≠ kind' →
      (record (("type", .text kind) :: xs)).same (record (("type", .text kind') :: ys)) = false :=
    fun ne => same_eq_false_of_field List.mem_cons_self rfl ne
  have byType : ∀ {type type' : String}, type ≠ type' →
      (record (("type", .text "literal") :: ("valueType", .text type) :: xs)).same
        (record (("type", .text "literal") :: ("valueType", .text type') :: ys)) = false :=
    fun ne => same_eq_false_of_field (List.mem_cons_of_mem _ List.mem_cons_self) rfl ne
  cases s with
  | literal type =>
    cases t with
    | literal type' => exact byType fun eq => ne (congrArg _ (ScalarType.name_inj eq))
    | array | object => exact byType (by cases type <;> decide)
    | reference | application | pipeline => exact byKind (by decide)
  | array | object =>
    cases t with
    | literal type => exact byType (by cases type <;> decide)
    | array | object => first | exact absurd rfl ne | exact byType (by decide)
    | reference | application | pipeline => exact byKind (by decide)
  | reference | application | pipeline =>
    cases t <;> first | exact absurd rfl ne | exact byKind (by decide)

theorem Data.same_of_header (s : Shape) (names : List String) {xs ys : List (String × Data)}
    (first : xs.map (·.1) = names) (second : ys.map (·.1) = names)
    (nodup : ("type" :: "valueType" :: names).Nodup) :
    (record (s.header ++ xs)).same (record (s.header ++ ys)) =
      sameList (xs.map (·.2)) (ys.map (·.2)) := by
  have same_text (t : String) : (text t).same (text t) = true := beq_self_eq_true t
  rw [same_record_of_names]
  · cases s <;> simp [Shape.header, sameList, same_text]
  · rw [List.map_append, List.map_append, first, second]
  · rw [List.map_append, second]
    cases s with
    | literal | array | object => exact nodup
    | reference | application | pipeline =>
      exact nodup.sublist ((List.sublist_cons_self _ _).cons_cons _)

namespace Expr

variable {a b e : Expr} {es fs : List Expr} {ms ns : List (String × Expr)}

theorem bind_eq_ok_iff {ε α β : Type} {x : Except ε α} {f : α → Except ε β} {b : β} :
    x >>= f = .ok b ↔ ∃ a, x = .ok a ∧ f a = .ok b := by
  cases x <;> simp [bind, Except.bind]

theorem exists_toDataList (h : ∀ e ∈ es, ∃ x, e.toData = .ok x) :
    ∃ xs, toDataList es = .ok xs := by
  induction es with
  | nil => exact ⟨[], rfl⟩
  | cons e es ih =>
    obtain ⟨⟨x, first⟩, others⟩ := List.forall_mem_cons.mp h
    obtain ⟨xs, rest⟩ := ih others
    exact ⟨x :: xs, by rw [toDataList, first, rest]; rfl⟩

theorem exists_toDataMembers (h : ∀ m ∈ ms, ∃ x, m.2.toData = .ok x) :
    ∃ xs, toDataMembers ms = .ok xs := by
  induction ms with
  | nil => exact ⟨[], rfl⟩
  | cons m ms ih =>
    obtain ⟨⟨x, first⟩, others⟩ := List.forall_mem_cons.mp h
    obtain ⟨xs, rest⟩ := ih others
    exact ⟨(m.1, x) :: xs, by rw [toDataMembers, first, rest]; rfl⟩

theorem Typed.exists_toData (h : e.Typed) : ∃ x, e.toData = .ok x := by
  induction h with
  | string | boolean | null | integer | float | reference => exact ⟨_, rfl⟩
  | array _ ih =>
    obtain ⟨items, eq⟩ := exists_toDataList ih
    exact ⟨_, by rw [toData, eq]; rfl⟩
  | object _ _ ih =>
    obtain ⟨fields, eq⟩ := exists_toDataMembers ih
    exact ⟨_, by rw [toData, eq]; rfl⟩
  | application _ _ ihFunction ihArguments =>
    obtain ⟨head, eq⟩ := ihFunction
    obtain ⟨items, eq'⟩ := exists_toDataList ihArguments
    exact ⟨_, by rw [toData, eq, eq']; rfl⟩
  | pipeline _ ih =>
    obtain ⟨items, eq⟩ := exists_toDataList ih
    exact ⟨_, by rw [toData, eq]; rfl⟩

def shape? : Expr → Option Shape
  | literal type _ => some (.literal type)
  | array _ => some .array
  | object _ => some .object
  | reference _ => some .reference
  | application .. => some .application
  | pipeline _ => some .pipeline
  | foreign _ => none

theorem toData_eq_record {x : Data} (h : e.toData = .ok x) :
    ∃ s fields, e.shape? = some s ∧ x = .record (s.header ++ fields) := by
  cases e with
  | literal | reference =>
    cases h
    exact ⟨_, _, rfl, rfl⟩
  | array | object | pipeline =>
    obtain ⟨items, -, eq⟩ := bind_eq_ok_iff.mp h
    cases eq
    exact ⟨_, _, rfl, rfl⟩
  | application =>
    obtain ⟨head, -, rest⟩ := bind_eq_ok_iff.mp h
    obtain ⟨items, -, eq⟩ := bind_eq_ok_iff.mp rest
    cases eq
    exact ⟨_, _, rfl, rfl⟩
  | foreign => cases h

theorem same_eq_false_of_shape?_ne (ne : a.shape? ≠ b.shape?) : a.same b = false := by
  cases a with
  | literal type v =>
    cases b with
    | literal type' w => 
      rw [same, beq_false_of_ne fun eq => ne (by rw [shape?, shape?, eq]), Bool.false_and]
    | _ => rfl
  | array | object | reference | application | pipeline | foreign =>
    cases b <;> first | rfl | exact absurd rfl ne

theorem sameList_of_toDataList {xs ys : List Data} (first : toDataList es = .ok xs)
    (second : toDataList fs = .ok ys)
    (parts : ∀ e ∈ es, ∀ f x y, e.toData = .ok x → f.toData = .ok y → x.same y = e.same f) :
    Data.sameList xs ys = sameList es fs := by
  induction es generalizing fs xs ys with
  | nil =>
    cases first
    cases fs with
    | nil =>
      cases second
      rfl
    | cons f fs =>
      obtain ⟨y, -, rest⟩ := bind_eq_ok_iff.mp second
      obtain ⟨ys, -, eq⟩ := bind_eq_ok_iff.mp rest
      cases eq
      rfl
  | cons e es ih =>
    obtain ⟨x, head, rest⟩ := bind_eq_ok_iff.mp first
    obtain ⟨xs, others, eq⟩ := bind_eq_ok_iff.mp rest
    cases eq
    cases fs with
    | nil =>
      cases second
      rfl
    | cons f fs =>
      obtain ⟨y, head', rest'⟩ := bind_eq_ok_iff.mp second
      obtain ⟨ys, others', eq'⟩ := bind_eq_ok_iff.mp rest'
      cases eq'
      obtain ⟨onHead, onOthers⟩ := List.forall_mem_cons.mp parts
      rw [Data.sameList, sameList, onHead f x y head head', ih others others' onOthers]

theorem field?_of_toDataMembers {ys : List (String × Data)} (h : toDataMembers ns = .ok ys)
    (key : String) : (member? ns key = none ∧ Data.field? ys key = none) ∨
      ∃ e y, member? ns key = some e ∧ e.toData = .ok y ∧ Data.field? ys key = some y := by
  induction ns generalizing ys with
  | nil =>
    cases h
    exact .inl ⟨rfl, rfl⟩
  | cons n ns ih =>
    obtain ⟨y, head, rest⟩ := bind_eq_ok_iff.mp h
    obtain ⟨ys, others, eq⟩ := bind_eq_ok_iff.mp rest
    cases eq
    by_cases first : n.1 = key
    · refine .inr ⟨n.2, y, ?_, head, ?_⟩ <;> simp [member?, Data.field?, first]
    · have skip : member? (n :: ns) key = member? ns key ∧
          Data.field? ((n.1, y) :: ys) key = Data.field? ys key := by
        simp [member?, Data.field?, first]
      rw [skip.1, skip.2]
      exact ih others

theorem sameFields_of_toDataMembers {xs ys : List (String × Data)}
    (first : toDataMembers ms = .ok xs) (second : toDataMembers ns = .ok ys)
    (parts : ∀ m ∈ ms, ∀ f x y, m.2.toData = .ok x → f.toData = .ok y → x.same y = m.2.same f) :
    Data.sameFields xs ys = sameMembers ms ns := by
  induction ms generalizing xs with
  | nil =>
    cases first
    rfl
  | cons m ms ih =>
    obtain ⟨x, head, rest⟩ := bind_eq_ok_iff.mp first
    obtain ⟨xs, others, eq⟩ := bind_eq_ok_iff.mp rest
    cases eq
    obtain ⟨onHead, onOthers⟩ := List.forall_mem_cons.mp parts
    rw [Data.sameFields, sameMembers, ih others onOthers]
    rcases field?_of_toDataMembers second m.1 with ⟨none, none'⟩ | ⟨f, y, some, data, some'⟩
    · rw [none, none']
    · rw [some, some']
      exact congrArg (· && _) (onHead f x y head data)

theorem same_texts (p q : List String) :
    Data.sameList (p.map .text) (q.map .text) = (p == q) := by
  induction p generalizing q with
  | nil => cases q <;> rfl
  | cons s p ih =>
    cases q with
    | nil => rfl
    | cons t q => exact congrArg (s == t && ·) (ih q)

theorem length_toDataMembers {xs : List (String × Data)} (h : toDataMembers ms = .ok xs) :
    xs.length = ms.length := by
  induction ms generalizing xs with
  | nil =>
    cases h
    rfl
  | cons m ms ih =>
    obtain ⟨x, head, rest⟩ := bind_eq_ok_iff.mp h
    obtain ⟨xs, others, eq⟩ := bind_eq_ok_iff.mp rest
    cases eq
    rw [List.length_cons, List.length_cons, ih others]

theorem same_toData {x y : Data} (first : a.toData = .ok x) (second : b.toData = .ok y) :
    x.same y = a.same b := by
  induction a using parts_induction generalizing b x y with
  | node a ih =>
    by_cases shapes : a.shape? = b.shape?
    case neg =>
      obtain ⟨s, xs, shape, rfl⟩ := toData_eq_record first
      obtain ⟨t, ys, shape', rfl⟩ := toData_eq_record second
      rw [shape, shape'] at shapes
      rw [same_eq_false_of_shape?_ne (by rwa [shape, shape']),
        Data.same_eq_false_of_shape_ne fun eq => shapes (congrArg some eq)]
    cases a with
    | literal type v =>
      cases b <;> cases shapes
      cases first
      cases second
      refine (Data.same_of_header (.literal type) ["value"] rfl rfl (by decide)).trans ?_
      rw [same, beq_self_eq_true]
      exact Bool.and_comm _ _
    | array es =>
      cases b <;> cases shapes
      obtain ⟨items, data, eq⟩ := bind_eq_ok_iff.mp first
      obtain ⟨items', data', eq'⟩ := bind_eq_ok_iff.mp second
      cases eq
      cases eq'
      refine (Data.same_of_header .array ["value"] rfl rfl (by decide)).trans ?_
      rw [same, ← sameList_of_toDataList data data' fun e mem f x y => ih es rfl e mem]
      exact Bool.and_true _
    | object ms =>
      cases b <;> cases shapes
      obtain ⟨fields, data, eq⟩ := bind_eq_ok_iff.mp first
      obtain ⟨fields', data', eq'⟩ := bind_eq_ok_iff.mp second
      cases eq
      cases eq'
      refine (Data.same_of_header .object ["value"] rfl rfl (by decide)).trans ?_
      rw [same, ← sameFields_of_toDataMembers data data' fun m mem f x y =>
        ih _ rfl m.2 (List.mem_map_of_mem mem), ← length_toDataMembers data,
        ← length_toDataMembers data']
      exact Bool.and_true _
    | reference path =>
      cases b <;> cases shapes
      cases first
      cases second
      refine (Data.same_of_header .reference ["path"] rfl rfl (by decide)).trans ?_
      rw [same, ← same_texts]
      exact Bool.and_true _
    | application function arguments =>
      cases b <;> cases shapes
      obtain ⟨head, headData, rest⟩ := bind_eq_ok_iff.mp first
      obtain ⟨items, data, eq⟩ := bind_eq_ok_iff.mp rest
      obtain ⟨head', headData', rest'⟩ := bind_eq_ok_iff.mp second
      obtain ⟨items', data', eq'⟩ := bind_eq_ok_iff.mp rest'
      cases eq
      cases eq'
      obtain ⟨onHead, onArguments⟩ := List.forall_mem_cons.mp (ih _ rfl)
      refine (Data.same_of_header .application ["function", "arguments"] rfl rfl
        (by decide)).trans ?_
      rw [same, ← onHead headData headData',
        ← sameList_of_toDataList data data' fun e mem f x y => onArguments e mem]
      exact congrArg _ (Bool.and_true _)
    | pipeline stages =>
      cases b <;> cases shapes
      obtain ⟨items, data, eq⟩ := bind_eq_ok_iff.mp first
      obtain ⟨items', data', eq'⟩ := bind_eq_ok_iff.mp second
      cases eq
      cases eq'
      refine (Data.same_of_header .pipeline ["stages"] rfl rfl (by decide)).trans ?_
      rw [same, ← sameList_of_toDataList data data' fun e mem f x y => ih _ rfl e mem]
      exact Bool.and_true _
    | foreign v => cases first

/-- Typed trees have plain data, and these are the same if and only if the trees are alike, which is
    what the comparison of trees decides. -/
theorem toData_faithful (typed : a.Typed) (typed' : b.Typed) :
    ∃ x y, a.toData = .ok x ∧ b.toData = .ok y ∧ (x.same y = true ↔ a.Alike b) ∧
      (a.same b = true ↔ a.Alike b) := by
  obtain ⟨x, first⟩ := typed.exists_toData
  obtain ⟨y, second⟩ := typed'.exists_toData
  have decided := same_iff_alike typed typed'
  exact ⟨x, y, first, second, by rw [same_toData first second, decided], decided⟩

theorem toData_faithful_members :
    let a := object [("type", .literal .number (.int 1)), ("value", array [])]
    let b := object [("value", array []), ("type", .literal .number (.float
      (.finite false ⟨2 ^ 52, 1022, by decide, by decide, by decide⟩)))]
    a.Typed ∧ b.Typed ∧ a.Alike b ∧
      ∃ x y, a.toData = .ok x ∧ b.toData = .ok y ∧ x.same y = true := by
  intro a b
  have typed : a.Typed := .object (by decide) (by simp [Typed.integer, Typed.array])
  have typed' : b.Typed := .object (by decide) (by simp [Typed.float, Typed.array])
  have same : a.same b = true := by decide +kernel
  obtain ⟨x, y, first, second, data, trees⟩ := toData_faithful typed typed'
  exact ⟨typed, typed', trees.mp same, x, y, first, second, data.mpr (trees.mp same)⟩

end Expr

end PipeExpr
