import PipeExpr.Data.Basic
import PipeExpr.Expr.Source

/-!
# The height of a tree

How many nodes stand below one another. As many calls inside one another are enough for a recursion
that calls itself on the parts of a node, as the plain data of a tree and its source text are made.
-/

set_option autoImplicit false

namespace PipeExpr.Expr

mutual

/-- The nodes on the longest way down from the tree, the tree itself included. -/
def height : Expr → Nat
  | array elements => heightList elements + 1
  | object members => heightMembers members + 1
  | application function arguments => max function.height (heightList arguments) + 1
  | pipeline stages => heightList stages + 1
  | literal .. | reference _ | foreign _ => 1

def heightList : List Expr → Nat
  | [] => 0
  | e :: rest => max e.height (heightList rest)

def heightMembers : List (String × Expr) → Nat
  | [] => 0
  | (_, e) :: rest => max e.height (heightMembers rest)

end

theorem heightList_le_iff {es : List Expr} {n : Nat} :
    heightList es ≤ n ↔ ∀ e ∈ es, e.height ≤ n := by
  induction es with
  | nil => simp [heightList]
  | cons e es ih => rw [heightList, Nat.max_le, ih, List.forall_mem_cons]

theorem heightMembers_eq (ms : List (String × Expr)) :
    heightMembers ms = heightList (ms.map (·.2)) := by
  induction ms with
  | nil => rfl
  | cons m ms ih => rw [heightMembers, ih, List.map_cons, heightList]

theorem heightMembers_le_iff {ms : List (String × Expr)} {n : Nat} :
    heightMembers ms ≤ n ↔ ∀ m ∈ ms, m.2.height ≤ n := by
  rw [heightMembers_eq, heightList_le_iff, List.forall_mem_map]

theorem height_of_parts {e : Expr} {ps : List Expr} (h : e.parts? = .ok ps) :
    e.height = heightList ps + 1 := by
  cases e with
  | literal | reference =>
    cases h
    rfl
  | object ms =>
    cases h
    rw [height, heightMembers_eq]
  | array | application | pipeline =>
    cases h
    rfl
  | foreign => cases h

theorem height_pos (e : Expr) : 0 < e.height := by
  cases e <;> exact Nat.succ_pos _

/-- What a recursion makes of a tree when at most `calls` of its calls may be under way at a time.
    One call is `call`, which leaves the calls that it makes to its argument. -/
def nested {α : Type} (call : (Expr → Option α) → Expr → Option α) : Nat → Expr → Option α
  | 0 => fun _ => none
  | calls + 1 => call (nested call calls)

theorem nested_of_height_le {α : Type} {call : (Expr → Option α) → Expr → Option α}
    {f : Expr → α}
    (onParts : ∀ inner e, (∀ ps, e.parts? = .ok ps → ∀ p ∈ ps, inner p = some (f p)) →
      call inner e = some (f e))
    {calls : Nat} {e : Expr} (h : e.height ≤ calls) : nested call calls e = some (f e) := by
  induction calls generalizing e with
  | zero => exact absurd e.height_pos (Nat.not_lt_of_le h)
  | succ calls ih =>
    apply onParts
    intro ps parts p mem
    rw [height_of_parts parts] at h
    exact ih (heightList_le_iff.mp (Nat.le_of_succ_le_succ h) p mem)

/-- An answer or an error, or nothing when there were not enough calls. -/
abbrev Attempt (ε α : Type) := ExceptT ε Option α

theorem mapM_attempts {ε α β : Type} {inner : α → Attempt ε β} {f : α → Except ε β} {as : List α}
    (h : ∀ a ∈ as, inner a = some (f a)) : as.mapM inner = (some (as.mapM f) : Option _) := by
  induction as with
  | nil => rfl
  | cons a as ih =>
    obtain ⟨first, others⟩ := List.forall_mem_cons.mp h
    rw [List.mapM_cons, List.mapM_cons, ih others, first]
    cases f a with
    | error e => rfl
    | ok b =>
      cases as.mapM f with
      | error e => rfl
      | ok bs => rfl

def toDataCall (inner : Expr → Attempt ForeignValue Data) : Expr → Attempt ForeignValue Data
  | literal type value => pure (literalData type.name (.scalar value))
  | array elements => do
    let items ← elements.mapM inner
    pure (literalData "array" (.list items))
  | object members => do
    let fields ← members.mapM fun (key, e) => do
      let item ← inner e
      pure (key, item)
    pure (literalData "object" (.record fields))
  | reference path =>
    pure (.record [("type", .text "reference"), ("path", .list (path.map .text))])
  | application function arguments => do
    let head ← inner function
    let items ← arguments.mapM inner
    pure (.record [("type", .text "application"), ("function", head), ("arguments", .list items)])
  | pipeline stages => do
    let items ← stages.mapM inner
    pure (.record [("type", .text "pipeline"), ("stages", .list items)])
  | foreign v => throw ⟨v⟩

theorem toDataList_eq_mapM (es : List Expr) : toDataList es = es.mapM toData := by
  induction es with
  | nil => rfl
  | cons e es ih => rw [toDataList, ih, List.mapM_cons]

theorem toDataMembers_eq_mapM (ms : List (String × Expr)) :
    toDataMembers ms = ms.mapM fun m => m.2.toData.map (m.1, ·) := by
  induction ms with
  | nil => rfl
  | cons m ms ih =>
    rw [toDataMembers, ih, List.mapM_cons]
    cases m.2.toData <;> rfl

theorem toDataCall_eq (inner : Expr → Attempt ForeignValue Data) (e : Expr)
    (h : ∀ ps, e.parts? = .ok ps → ∀ p ∈ ps, inner p = some p.toData) :
    toDataCall inner e = some e.toData := by
  cases e with
  | literal | reference | foreign => rfl
  | array es =>
    rw [toDataCall, mapM_attempts (h es rfl), toData, toDataList_eq_mapM]
    cases es.mapM toData <;> rfl
  | object ms =>
    have members : ∀ m ∈ ms, (do let item ← inner m.2; pure (m.1, item) : Attempt _ _) =
        some (m.2.toData.map (m.1, ·)) := by
      intro m mem
      rw [h _ rfl m.2 (List.mem_map_of_mem mem)]
      cases m.2.toData <;> rfl
    rw [toDataCall, mapM_attempts members, toData, toDataMembers_eq_mapM]
    cases ms.mapM fun m => m.2.toData.map (m.1, ·) <;> rfl
  | application function arguments =>
    obtain ⟨first, others⟩ := List.forall_mem_cons.mp (h _ rfl)
    rw [toDataCall, first, mapM_attempts others, toData, toDataList_eq_mapM]
    cases function.toData with
    | error => rfl
    | ok => cases arguments.mapM toData <;> rfl
  | pipeline stages =>
    rw [toDataCall, mapM_attempts (h stages rfl), toData, toDataList_eq_mapM]
    cases stages.mapM toData <;> rfl

def writeCall (inner : Expr → Attempt WriteError (List Char)) :
    Expr → Attempt WriteError (List Char)
  | literal type value => liftM (type.write value)
  | array elements => do
    let texts ← elements.mapM inner
    pure ('[' :: joined [',', ' '] texts ++ [']'])
  | object members => do
    let texts ← members.mapM fun (key, e) => do
      let text ← inner e
      pure (quotation key.toList ++ [':', ' '] ++ text)
    pure ('{' :: joined [',', ' '] texts ++ ['}'])
  | reference path => pure (joined ['.'] (path.map String.toList))
  | application function arguments => do
    let texts ← (function :: arguments).mapM fun e => do
      let text ← inner e
      pure (grouped (e.isApplication || e.isPipeline) text)
    pure (joined [' '] texts)
  | pipeline stages => do
    let texts ← stages.mapM fun e => do
      let text ← inner e
      pure (grouped e.isPipeline text)
    pure (joined [' ', '|', ' '] texts)
  | foreign v => throw (.foreign v)

theorem writeList_eq_mapM (group : Expr → Bool) (es : List Expr) :
    writeList group es = es.mapM fun e => e.write.map (grouped (group e)) := by
  induction es with
  | nil => rfl
  | cons e es ih =>
    rw [writeList, ih, List.mapM_cons]
    cases e.write <;> rfl

theorem writeMembers_eq_mapM (ms : List (String × Expr)) :
    writeMembers ms = ms.mapM fun m =>
      m.2.write.map (quotation m.1.toList ++ [':', ' '] ++ ·) := by
  induction ms with
  | nil => rfl
  | cons m ms ih =>
    rw [writeMembers, ih, List.mapM_cons]
    cases m.2.write <;> rfl

theorem writeCall_eq (inner : Expr → Attempt WriteError (List Char)) (e : Expr)
    (h : ∀ ps, e.parts? = .ok ps → ∀ p ∈ ps, inner p = some p.write) :
    writeCall inner e = some e.write := by
  have grouping : ∀ (group : Expr → Bool) (es : List Expr), (∀ e ∈ es, inner e = some e.write) →
      es.mapM (fun e => do let text ← inner e; pure (grouped (group e) text) : _ → Attempt _ _) =
        (some (writeList group es) : Option _) := by
    intro group es written
    rw [writeList_eq_mapM]
    apply mapM_attempts
    intro e mem
    rw [written e mem]
    cases e.write <;> rfl
  cases e with
  | reference | foreign => rfl
  | literal type value =>
    rw [writeCall, write]
    cases type.write value <;> rfl
  | array es =>
    have bare : writeList (fun _ => false) es = es.mapM write := by
      rw [writeList_eq_mapM]
      congr 1
      funext e
      cases e.write <;> rfl
    rw [writeCall, mapM_attempts (h es rfl), write, bare]
    cases es.mapM write <;> rfl
  | object ms =>
    have members : ∀ m ∈ ms, (do
        let text ← inner m.2
        pure (quotation m.1.toList ++ [':', ' '] ++ text) : Attempt _ _) =
        some (m.2.write.map (quotation m.1.toList ++ [':', ' '] ++ ·)) := by
      intro m mem
      rw [h _ rfl m.2 (List.mem_map_of_mem mem)]
      cases m.2.write <;> rfl
    rw [writeCall, mapM_attempts members, write, writeMembers_eq_mapM]
    cases ms.mapM fun m => m.2.write.map (quotation m.1.toList ++ [':', ' '] ++ ·) <;> rfl
  | application function arguments =>
    rw [writeCall, grouping _ _ (h _ rfl), write, writeList]
    cases function.write with
    | error => rfl
    | ok => cases writeList (fun e => e.isApplication || e.isPipeline) arguments <;> rfl
  | pipeline stages =>
    rw [writeCall, grouping _ _ (h _ rfl), write]
    cases writeList isPipeline stages <;> rfl

end PipeExpr.Expr
