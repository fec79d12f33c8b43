import PipeExpr.Proofs.Grammar.Derivation

/-!
# The nesting of terminals

How deep a row of terminals nests its brackets can be read off it, without any derivation. That many
levels are enough to derive what the row derives, and no fewer are.
-/

set_option autoImplicit false

namespace PipeExpr
open Terminal (symbol)

def Terminal.levelAfter (level : Nat) (a : Terminal) : Nat :=
  if a = symbol "(" ∨ a = symbol "[" ∨ a = symbol "\x7b" then level + 1
  else if a = symbol ")" ∨ a = symbol "]" ∨ a = symbol "\x7d" then level - 1
  else level

namespace Grammar

/-- The most brackets that are open at once, with `level` of them open before the first terminal. -/
def deepest (level : Nat) : List Terminal → Nat
  | [] => level
  | a :: rest => max level (deepest (a.levelAfter level) rest)

def nesting (ts : List Terminal) : Nat :=
  deepest 0 ts

def Balanced (ts : List Terminal) : Prop :=
  ∀ level us, deepest level (ts ++ us) = max (deepest level ts) (deepest level us)

def Neutral (a : Terminal) : Prop :=
  ∀ level, a.levelAfter level = level

variable {ts us : List Terminal} {a opener closer : Terminal}

theorem le_deepest (level : Nat) (ts : List Terminal) : level ≤ deepest level ts := by
  cases ts with
  | nil => exact Nat.le_refl level
  | cons a rest => exact Nat.le_max_left ..

theorem neutral_of_kind (h : a.kind ≠ .special) : Neutral a := by
  intro level
  have other : ∀ s, a ≠ symbol s := by
    rintro s rfl
    exact h rfl
  simp only [Terminal.levelAfter, other, or_self, if_false]

theorem neutral_symbol {s : String}
    (h : s ≠ "(" ∧ s ≠ "[" ∧ s ≠ "\x7b" ∧ s ≠ ")" ∧ s ≠ "]" ∧ s ≠ "\x7d") :
    Neutral (symbol s) := by
  intro level
  simp [Terminal.levelAfter, symbol, h]

theorem deepest_neutral (h : Neutral a) (level : Nat) (us : List Terminal) :
    deepest level (a :: us) = deepest level us := by
  rw [deepest, h level, Nat.max_eq_right (le_deepest level us)]

theorem Balanced.nil : Balanced [] := by
  intro level us
  exact (Nat.max_eq_right (le_deepest level us)).symm

theorem Balanced.cons (neutral : Neutral a) (h : Balanced ts) : Balanced (a :: ts) := by
  intro level us
  rw [List.cons_append, deepest_neutral neutral, deepest_neutral neutral, h level us]

theorem Balanced.append (h : Balanced ts) (h' : Balanced us) : Balanced (ts ++ us) := by
  intro level vs
  rw [List.append_assoc, h level, h' level, h level, Nat.max_assoc]

structure Bracket (opener closer : Terminal) : Prop where
  opens : ∀ level, opener.levelAfter level = level + 1
  closes : ∀ level, closer.levelAfter (level + 1) = level

theorem bracket_group : Bracket (symbol "(") (symbol ")") :=
  ⟨fun _ => rfl, fun _ => rfl⟩

theorem bracket_array : Bracket (symbol "[") (symbol "]") :=
  ⟨fun _ => rfl, fun _ => rfl⟩

theorem bracket_object : Bracket (symbol "\x7b") (symbol "\x7d") :=
  ⟨fun _ => rfl, fun _ => rfl⟩

theorem deepest_bracket (pair : Bracket opener closer) (h : Balanced ts) (level : Nat)
    (us : List Terminal) :
    deepest level (opener :: (ts ++ closer :: us)) =
      max (deepest (level + 1) ts) (deepest level us) := by
  have inside := le_deepest (level + 1) ts
  have outside := le_deepest level us
  rw [deepest, pair.opens, h, deepest, pair.closes]
  omega

theorem Balanced.bracket (pair : Bracket opener closer) (h : Balanced ts) :
    Balanced (opener :: ts ++ [closer]) := by
  intro level us
  have inside := le_deepest (level + 1) ts
  rw [List.append_assoc, List.cons_append, List.singleton_append, List.cons_append,
    deepest_bracket pair h, deepest_bracket pair h, deepest]
  omega

theorem deepest_bracket_sub (pair : Bracket opener closer) (h : Balanced ts) (level : Nat) :
    deepest level (opener :: ts ++ [closer]) - level =
      deepest (level + 1) ts - (level + 1) + 1 := by
  have inside := le_deepest (level + 1) ts
  rw [List.cons_append, deepest_bracket pair h, deepest]
  omega

theorem deepest_empty_sub (pair : Bracket opener closer) (level : Nat) :
    deepest level [opener, closer] - level = 1 := by
  have inside := deepest_bracket_sub pair .nil level
  rw [deepest, Nat.sub_self] at inside
  exact inside

theorem Segments.balanced {segments : List String} (h : Segments ts segments) : Balanced ts := by
  induction h with
  | nil => exact .nil
  | cons v _ _ ih => exact .cons (neutral_symbol (by decide)) (.cons (neutral_of_kind nofun) ih)

theorem Key.neutral {key : String} (h : Key a key) : Neutral a := by
  cases h with
  | text s => exact neutral_of_kind nofun
  | name v _ => exact neutral_of_kind nofun

theorem deepest_separated (h : Balanced ts) (neutral : Neutral a) (level : Nat) :
    deepest level ts - level ≤ deepest level (ts ++ a :: us) - level ∧
      deepest level us - level ≤ deepest level (ts ++ a :: us) - level := by
  rw [h, deepest_neutral neutral]
  omega

-- The induction is over all levels at once, since what stands inside brackets starts one level
-- further up than the brackets do.
mutual

theorem Pipeline.within {d : Nat} {ts : List Terminal} {e : Expr} (h : Pipeline d ts e) :
    Balanced ts ∧ ∀ level, Pipeline (deepest level ts - level) ts e := by
  match h with
  | .ofStages stages =>
    obtain ⟨balanced, within⟩ := stages.within
    exact ⟨balanced, fun level => .ofStages (within level)⟩
termination_by structural h

theorem Stages.within {d : Nat} {ts : List Terminal} {es : List Expr} (h : Stages d ts es) :
    Balanced ts ∧ ∀ level, Stages (deepest level ts - level) ts es := by
  match h with
  | .one application =>
    obtain ⟨balanced, within⟩ := application.within
    exact ⟨balanced, fun level => .one (within level)⟩
  | .more application stages =>
    obtain ⟨balanced, within⟩ := application.within
    obtain ⟨balanced', within'⟩ := stages.within
    have pipe : Neutral (symbol "|") := neutral_symbol (by decide)
    refine ⟨balanced.append (balanced'.cons pipe), fun level => ?_⟩
    obtain ⟨le, le'⟩ := deepest_separated balanced pipe level
    exact .more ((within level).mono le) ((within' level).mono le')
termination_by structural h

theorem Application.within {d : Nat} {ts : List Terminal} {e : Expr} (h : Application d ts e) :
    Balanced ts ∧ ∀ level, Application (deepest level ts - level) ts e := by
  match h with
  | .ofOperands operands =>
    obtain ⟨balanced, within⟩ := operands.within
    exact ⟨balanced, fun level => .ofOperands (within level)⟩
termination_by structural h

theorem Operands.within {d : Nat} {ts : List Terminal} {es : List Expr} (h : Operands d ts es) :
    Balanced ts ∧ ∀ level, Operands (deepest level ts - level) ts es := by
  match h with
  | .one primary =>
    obtain ⟨balanced, within⟩ := primary.within
    exact ⟨balanced, fun level => .one (within level)⟩
  | .more primary operands =>
    obtain ⟨balanced, within⟩ := primary.within
    obtain ⟨balanced', within'⟩ := operands.within
    refine ⟨balanced.append balanced', fun level => ?_⟩
    rw [balanced level]
    exact .more ((within level).mono (by omega)) ((within' level).mono (by omega))
termination_by structural h

theorem Primary.within {d : Nat} {ts : List Terminal} {e : Expr} (h : Primary d ts e) :
    Balanced ts ∧ ∀ level, Primary (deepest level ts - level) ts e := by
  match h with
  | .value v => exact ⟨.cons (neutral_of_kind nofun) .nil, fun _ => .value v⟩
  | .reference v segments =>
    exact ⟨.cons (neutral_of_kind nofun) segments.balanced, fun _ => .reference v segments⟩
  | .group inside =>
    obtain ⟨balanced, within⟩ := inside.within
    refine ⟨.bracket bracket_group balanced, fun level => ?_⟩
    rw [deepest_bracket_sub bracket_group balanced]
    exact .group (within _)
  | .emptyArray =>
    refine ⟨.bracket bracket_array .nil, fun level => ?_⟩
    rw [deepest_empty_sub bracket_array]
    exact .emptyArray
  | .array elements =>
    obtain ⟨balanced, within⟩ := elements.within
    refine ⟨.bracket bracket_array balanced, fun level => ?_⟩
    rw [deepest_bracket_sub bracket_array balanced]
    exact .array (within _)
  | .emptyObject =>
    refine ⟨.bracket bracket_object .nil, fun level => ?_⟩
    rw [deepest_empty_sub bracket_object]
    exact .emptyObject
  | .object entries =>
    obtain ⟨balanced, within⟩ := entries.within
    refine ⟨.bracket bracket_object balanced, fun level => ?_⟩
    rw [deepest_bracket_sub bracket_object balanced]
    exact .object (within _)
termination_by structural h

theorem Elements.within {d : Nat} {ts : List Terminal} {es : List Expr} (h : Elements d ts es) :
    Balanced ts ∧ ∀ level, Elements (deepest level ts - level) ts es := by
  match h with
  | .one pipeline =>
    obtain ⟨balanced, within⟩ := pipeline.within
    exact ⟨balanced, fun level => .one (within level)⟩
  | .more pipeline elements =>
    obtain ⟨balanced, within⟩ := pipeline.within
    obtain ⟨balanced', within'⟩ := elements.within
    have comma : Neutral (symbol ",") := neutral_symbol (by decide)
    refine ⟨balanced.append (balanced'.cons comma), fun level => ?_⟩
    obtain ⟨le, le'⟩ := deepest_separated balanced comma level
    exact .more ((within level).mono le) ((within' level).mono le')
termination_by structural h

theorem Entries.within {d : Nat} {ts : List Terminal} {entries : List (String × Expr)}
    (h : Entries d ts entries) :
    Balanced ts ∧ ∀ level, Entries (deepest level ts - level) ts entries := by
  have colon : Neutral (symbol ":") := neutral_symbol (by decide)
  match h with
  | .one key pipeline =>
    obtain ⟨balanced, within⟩ := pipeline.within
    refine ⟨.cons key.neutral (.cons colon balanced), fun level => ?_⟩
    rw [deepest_neutral key.neutral, deepest_neutral colon]
    exact .one key (within level)
  | .more key pipeline rest =>
    obtain ⟨balanced, within⟩ := pipeline.within
    obtain ⟨balanced', within'⟩ := rest.within
    have comma : Neutral (symbol ",") := neutral_symbol (by decide)
    refine ⟨.cons key.neutral (.cons colon (balanced.append (balanced'.cons comma))), ?_⟩
    intro level
    rw [deepest_neutral key.neutral, deepest_neutral colon]
    obtain ⟨le, le'⟩ := deepest_separated balanced comma level
    exact .more key ((within level).mono le) ((within' level).mono le')
termination_by structural h

end

theorem Pipeline.of_nesting_le {d d' : Nat} {e : Expr} (h : Pipeline d ts e)
    (le : nesting ts ≤ d') : Pipeline d' ts e :=
  (h.within.2 0).mono le

theorem deepest_append_le {d level : Nat} (balanced : Balanced ts)
    (le : deepest level ts ≤ level + d) (le' : deepest level us ≤ level + d) :
    deepest level (ts ++ us) ≤ level + d := by
  rw [balanced level us]
  exact Nat.max_le.mpr ⟨le, le'⟩

theorem deepest_separated_le {d level : Nat} (neutral : Neutral a) (balanced : Balanced ts)
    (le : deepest level ts ≤ level + d) (le' : deepest level us ≤ level + d) :
    deepest level (ts ++ a :: us) ≤ level + d := by
  apply deepest_append_le balanced le
  rwa [deepest_neutral neutral]

theorem deepest_bracket_le (pair : Bracket opener closer) {d : Nat} (balanced : Balanced ts)
    (le : ∀ level, deepest level ts ≤ level + d) (level : Nat) :
    deepest level (opener :: ts ++ [closer]) ≤ level + (d + 1) := by
  have inside := le (level + 1)
  rw [List.cons_append, deepest_bracket pair balanced, deepest]
  omega

theorem Segments.deepest_eq {segments : List String} (h : Segments ts segments) (level : Nat) :
    deepest level ts = level := by
  induction h with
  | nil => rfl
  | cons v _ _ ih =>
    have name : Neutral ⟨.reference, v⟩ := neutral_of_kind nofun
    rw [deepest_neutral (neutral_symbol (by decide)), deepest_neutral name, ih]

mutual

theorem Pipeline.deepest_le {d : Nat} {ts : List Terminal} {e : Expr} (h : Pipeline d ts e)
    (level : Nat) : deepest level ts ≤ level + d := by
  match h with
  | .ofStages stages => exact stages.deepest_le level
termination_by structural h

theorem Stages.deepest_le {d : Nat} {ts : List Terminal} {es : List Expr} (h : Stages d ts es)
    (level : Nat) : deepest level ts ≤ level + d := by
  match h with
  | .one application => exact application.deepest_le level
  | .more application stages =>
    exact deepest_separated_le (neutral_symbol (by decide)) application.within.1
      (application.deepest_le level) (stages.deepest_le level)
termination_by structural h

theorem Application.deepest_le {d : Nat} {ts : List Terminal} {e : Expr}
    (h : Application d ts e) (level : Nat) : deepest level ts ≤ level + d := by
  match h with
  | .ofOperands operands => exact operands.deepest_le level
termination_by structural h

theorem Operands.deepest_le {d : Nat} {ts : List Terminal} {es : List Expr}
    (h : Operands d ts es) (level : Nat) : deepest level ts ≤ level + d := by
  match h with
  | .one primary => exact primary.deepest_le level
  | .more primary operands =>
    exact deepest_append_le primary.within.1 (primary.deepest_le level) (operands.deepest_le level)
termination_by structural h

theorem Primary.deepest_le {d : Nat} {ts : List Terminal} {e : Expr} (h : Primary d ts e)
    (level : Nat) : deepest level ts ≤ level + d := by
  match h with
  | .value v =>
    have value : Neutral ⟨.value, v⟩ := neutral_of_kind nofun
    rw [deepest_neutral value]
    exact Nat.le_add_right ..
  | .reference v segments =>
    have name : Neutral ⟨.reference, v⟩ := neutral_of_kind nofun
    rw [deepest_neutral name, segments.deepest_eq]
    exact Nat.le_add_right ..
  | .group inside => exact deepest_bracket_le bracket_group inside.within.1 inside.deepest_le level
  | .emptyArray => exact deepest_bracket_le bracket_array .nil (fun _ => Nat.le_add_right ..) level
  | .array elements =>
    exact deepest_bracket_le bracket_array elements.within.1 elements.deepest_le level
  | .emptyObject =>
    exact deepest_bracket_le bracket_object .nil (fun _ => Nat.le_add_right ..) level
  | .object entries =>
    exact deepest_bracket_le bracket_object entries.within.1 entries.deepest_le level
termination_by structural h

theorem Elements.deepest_le {d : Nat} {ts : List Terminal} {es : List Expr}
    (h : Elements d ts es) (level : Nat) : deepest level ts ≤ level + d := by
  match h with
  | .one pipeline => exact pipeline.deepest_le level
  | .more pipeline elements =>
    exact deepest_separated_le (neutral_symbol (by decide)) pipeline.within.1
      (pipeline.deepest_le level) (elements.deepest_le level)
termination_by structural h

theorem Entries.deepest_le {d : Nat} {ts : List Terminal} {entries : List (String × Expr)}
    (h : Entries d ts entries) (level : Nat) : deepest level ts ≤ level + d := by
  have colon : Neutral (symbol ":") := neutral_symbol (by decide)
  match h with
  | .one key pipeline =>
    rw [deepest_neutral key.neutral, deepest_neutral colon]
    exact pipeline.deepest_le level
  | .more key pipeline rest =>
    rw [deepest_neutral key.neutral, deepest_neutral colon]
    exact deepest_separated_le (neutral_symbol (by decide)) pipeline.within.1
      (pipeline.deepest_le level) (rest.deepest_le level)
termination_by structural h

end

/-- The nesting of the terminals is the least number of levels that they are derived within. -/
theorem Pipeline.iff_nesting_le {d d' : Nat} {e : Expr} (h : Pipeline d ts e) :
    Pipeline d' ts e ↔ nesting ts ≤ d' := by
  refine ⟨fun derived => ?_, h.of_nesting_le⟩
  have le := derived.deepest_le 0
  rwa [Nat.zero_add] at le

end Grammar

end PipeExpr
