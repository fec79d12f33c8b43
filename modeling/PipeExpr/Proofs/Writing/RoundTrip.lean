import PipeExpr.Proofs.Grammar.Nesting
import PipeExpr.Proofs.Reading.Recognition
import PipeExpr.Proofs.Scanning.Delivery
import PipeExpr.Proofs.Scanning.Scanned
import PipeExpr.Proofs.Writing.Spelling

set_option autoImplicit false

namespace PipeExpr
open Grammar

theorem readSourceBy_eq_ok_iff {readAll : String → List Token → Except ReadError Expr}
    {source : String} {e : Expr} : readSourceBy readAll source = .ok e ↔
      ∃ tokens, scan source = .ok tokens ∧ readAll source tokens = .ok e := by
  rw [readSourceBy]
  cases scan source with
  | error reason => simp
  | ok tokens => cases outcome : readAll source tokens <;> simp [outcome, Except.mapError]

theorem Lexes.writable {cs : List Char} {tokens : List Token}
    (h : Lexes cs (tokens.map Token.terminal)) : ∀ t ∈ tokens, t.role ≠ .overlong := by
  intro t mem overlong
  obtain ⟨v, name, unwritten⟩ := Token.role_eq_overlong_iff.mp overlong
  have scanned := h.scanned _ (List.mem_map_of_mem mem)
  rw [name] at scanned
  cases scanned <;> cases unwritten

/-- Reading a source is scanning it and deriving the tree from its terminals. -/
theorem readSource_eq_ok_iff {limits : Limits} {source : String} {e : Expr} :
    readSource limits source = .ok e ↔
      ∃ as, Lexes source.toList as ∧ Pipeline limits.depth as e := by
  rw [readSource, readSourceBy_eq_ok_iff]
  constructor
  · rintro ⟨tokens, scanned, read⟩
    exact ⟨_, scan_ok_iff.mp ⟨tokens, scanned, rfl⟩, pipeline_of_readTokens read⟩
  · rintro ⟨as, lexes, derived⟩
    obtain ⟨tokens, scanned, rfl⟩ := scan_ok_iff.mpr lexes
    exact ⟨tokens, scanned, derived.readTokens lexes.writable source⟩

/-- The source text of a tree is scanned into its canonical terminals. -/
theorem Expr.Written.source {e : Expr} (h : e.Written) :
    ∃ text, e.source = .ok text ∧ Lexes text.toList e.terminals := by
  obtain ⟨text, written, spells⟩ := h
  refine ⟨String.ofList text, ?_, ?_⟩
  · rw [Expr.source, written]
    rfl
  · rw [String.toList_ofList]
    exact spells.lexes

/-- Every well-formed tree has a source text, which is read back as exactly that tree within all
    limits that admit the nesting of its brackets. -/
theorem readSource_of_wellFormed {e : Expr} (h : e.WellFormed) :
    ∃ text tokens, e.source = .ok text ∧ scan text = .ok tokens ∧
      ∀ limits : Limits, nesting (tokens.map Token.terminal) ≤ limits.depth →
        readSource limits text = .ok e := by
  obtain ⟨text, written, lexes⟩ := (Expr.written_of_wellFormed h).source
  obtain ⟨tokens, scanned, terminals⟩ := scan_ok_iff.mpr lexes
  have derived : Pipeline e.size e.terminals e := (canonical_of_regular h).pipeline
  refine ⟨text, tokens, written, scanned, fun limits le => ?_⟩
  rw [terminals] at le
  exact readSource_eq_ok_iff.mpr ⟨e.terminals, lexes, derived.of_nesting_le le⟩

theorem readSource_of_pipeline :
    let half : Magnitude := ⟨2 ^ 52, 1021, by decide, .inr (Nat.le_refl _), by decide⟩
    let e : Expr := .pipeline
      [.application (.application (.reference ["f"]) [.reference ["@", "a"]])
        [.array [.literal .number (.int 7), .literal .number (.float (.finite false half))]],
       .object [("k\"", .literal .string (.string "\\")), ("", .literal .null .null)]]
    e.WellFormed ∧ ∃ text tokens, e.source = .ok text ∧ scan text = .ok tokens ∧
      ∀ limits : Limits, nesting (tokens.map Token.terminal) ≤ limits.depth →
        readSource limits text = .ok e := by
  intro half e
  have f : IsIdentifier "f" := ⟨⟨'f', [], rfl, rfl, List.forall_mem_nil _⟩, by decide⟩
  have a : IsIdentifier "a" := ⟨⟨'a', [], rfl, rfl, List.forall_mem_nil _⟩, by decide⟩
  have seven : ((7 : Nat) : Int) < integerLimit := by decide +kernel
  have path : (Expr.reference ["@", "a"]).WellFormed :=
    .reference (.inl rfl) (List.forall_mem_singleton.mpr a)
  have call : (Expr.application (.reference ["f"]) [.reference ["@", "a"]]).WellFormed :=
    .application (by simp) (.reference (.inr f) (List.forall_mem_nil _))
      (List.forall_mem_singleton.mpr path)
  have numbers : (Expr.array
      [.literal .number (.int 7), .literal .number (.float (.finite false half))]).WellFormed :=
    .array (List.forall_mem_cons.mpr
      ⟨.integer 7 seven, List.forall_mem_singleton.mpr (.float half)⟩)
  have texts : (Expr.object
      [("k\"", .literal .string (.string "\\")), ("", .literal .null .null)]).WellFormed :=
    .object (by decide) (List.forall_mem_cons.mpr
      ⟨.string "\\", List.forall_mem_singleton.mpr .null⟩)
  have wellFormed : e.WellFormed :=
    .pipeline (by decide) (List.forall_mem_cons.mpr
      ⟨.application (by simp) call (List.forall_mem_singleton.mpr numbers),
        List.forall_mem_singleton.mpr texts⟩)
  exact ⟨wellFormed, readSource_of_wellFormed wellFormed⟩

namespace Expr

theorem written_or_tooLarge {e : Expr} (regular : e.Regular fun _ => True)
    (h : (∃ n ∈ e.integers, (integerLimit : Int) ≤ n) → e.write = .error .tooLarge) :
    e.Written ∨ e.write = .error .tooLarge := by
  by_cases small : ∀ n ∈ e.integers, n < integerLimit
  · exact .inl (written_of_wellFormed (regular.narrow small))
  · push Not at small
    exact .inr (h small)

theorem writeList_tooLarge {es : List Expr} (group : Expr → Bool)
    (regular : ∀ e ∈ es, e.Regular fun _ => True)
    (h : ∀ e ∈ es, (∃ n ∈ e.integers, (integerLimit : Int) ≤ n) → e.write = .error .tooLarge)
    (large : ∃ n ∈ integersList es, (integerLimit : Int) ≤ n) :
    writeList group es = .error .tooLarge := by
  induction es with
  | nil =>
    obtain ⟨n, mem, -⟩ := large
    cases mem
  | cons e es ih =>
    obtain ⟨regularFirst, regularRest⟩ := List.forall_mem_cons.mp regular
    obtain ⟨first, others⟩ := List.forall_mem_cons.mp h
    rcases written_or_tooLarge regularFirst first with ⟨text, written, -⟩ | tooLarge
    · obtain ⟨n, mem, beyond⟩ := large
      rcases List.mem_append.mp mem with here | inRest
      · rw [first ⟨n, here, beyond⟩] at written
        cases written
      · simp only [writeList, written, ih regularRest others ⟨n, inRest, beyond⟩]
        rfl
    · simp only [writeList, tooLarge]
      rfl

theorem writeMembers_eq (ms : List (String × Expr)) :
    writeMembers ms = (writeList (fun _ => false) (ms.map (·.2))).map
      (List.zipWith (fun key text => quotation key.toList ++ [':', ' '] ++ text)
        (ms.map (·.1))) := by
  induction ms with
  | nil => rfl
  | cons m ms ih =>
    simp only [writeMembers, writeList, List.map_cons, ih]
    cases m.2.write with
    | error reason => rfl
    | ok text =>
      cases writeList (fun _ => false) (ms.map (·.2)) with
      | error reason => rfl
      | ok texts => rfl

/-- The only obstacle in a regular tree is an integer too large. -/
theorem write_tooLarge {e : Expr} (h : e.Regular fun _ => True)
    (large : ∃ n ∈ e.integers, (integerLimit : Int) ≤ n) : e.write = .error .tooLarge := by
  induction h with
  | string | boolean | null | float | reference =>
    obtain ⟨n, mem, -⟩ := large
    cases mem
  | integer n =>
    obtain ⟨m, mem, beyond⟩ := large
    cases List.mem_singleton.mp mem
    have beyond : integerLimit ≤ n := Int.ofNat_le.mp beyond
    have notNegative : ¬(n : Int) < 0 := by omega
    simp only [write, ScalarType.write, Scalar.numeral, if_neg notNegative, Int.toNat_natCast,
      if_pos beyond]
  | array regular ih =>
    simp only [write, writeList_tooLarge _ regular ih large]
    rfl
  | object _ regular ih =>
    rw [integers, integersMembers_eq] at large
    rw [write, writeMembers_eq, writeList_tooLarge _ (List.forall_mem_map.mpr regular)
      (List.forall_mem_map.mpr ih) large]
    rfl
  | application _ regularFunction regular ihFunction ih =>
    rcases written_or_tooLarge regularFunction ihFunction with ⟨text, written, -⟩ | tooLarge
    · obtain ⟨n, mem, beyond⟩ := large
      rcases List.mem_append.mp mem with inFunction | inArguments
      · rw [ihFunction ⟨n, inFunction, beyond⟩] at written
        cases written
      · simp only [write, written, writeList_tooLarge _ regular ih ⟨n, inArguments, beyond⟩]
        rfl
    · simp only [write, tooLarge]
      rfl
  | pipeline _ regular ih =>
    simp only [write, writeList_tooLarge _ regular ih large]
    rfl

end Expr

/-- A tree that was read is read again from its source text, within the same limits, if all of its
    integers are small enough; otherwise it has no source text. -/
theorem readSource_again {limits : Limits} {source : String} {e : Expr}
    (h : readSource limits source = .ok e) :
    ((∀ n ∈ e.integers, n < integerLimit) →
      ∃ text, e.source = .ok text ∧ readSource limits text = .ok e) ∧
    ((∃ n ∈ e.integers, (integerLimit : Int) ≤ n) → e.source = .error .tooLarge) := by
  obtain ⟨as, lexes, derived⟩ := readSource_eq_ok_iff.mp h
  have regular : e.Regular fun _ => True := derived.regular lexes.scanned
  constructor
  · intro small
    obtain ⟨text, written, lexes⟩ := (Expr.written_of_wellFormed (regular.narrow small)).source
    have canonical : Pipeline limits.depth e.terminals e := (derived.canonical regular).pipeline
    exact ⟨text, written, readSource_eq_ok_iff.mpr ⟨e.terminals, lexes, canonical⟩⟩
  · intro large
    rw [Expr.source, Expr.write_tooLarge regular large]
    rfl

theorem readSource_again_call :
    let e : Expr := .application (.reference ["f"]) [.literal .number (.int 1)]
    readSource {} "f (1)" = .ok e ∧ ∃ text, e.source = .ok text ∧ readSource {} text = .ok e := by
  intro e
  have read : readSource {} "f (1)" = .ok e := by rfl
  refine ⟨read, (readSource_again read).1 ?_⟩
  intro n mem
  rw [List.mem_singleton.mp mem]
  decide +kernel

theorem readSource_toDigits {n : Nat} (h : n < 10 ^ maxIntegerDigits) (limits : Limits) :
    readSource limits (String.ofList (Nat.toDigits 10 n)) = .ok (.literal .number (.int n)) := by
  have short : (Nat.toDigits 10 n).length ≤ maxIntegerDigits :=
    (Nat.length_toDigits_le_iff (by decide) (by decide)).mpr h
  have lexes : Lexes (Nat.toDigits 10 n ++ []) [⟨.value, .int n⟩] := .integer short nofun nofun .nil
  have derived : Pipeline limits.depth [⟨.value, .int n⟩] (.literal .number (.int n)) :=
    (Canonical.ofScalar (.int n)).pipeline
  rw [List.append_nil] at lexes
  exact readSource_eq_ok_iff.mpr ⟨_, by rwa [String.toList_ofList], derived⟩

theorem readSource_ten_pow :
    let n : Nat := 10 ^ 309
    let e : Expr := .literal .number (.int n)
    readSource {} (String.ofList (Nat.toDigits 10 n)) = .ok e ∧ e.source = .error .tooLarge := by
  intro n e
  have short : n < 10 ^ maxIntegerDigits := by decide +kernel
  have beyond : (integerLimit : Int) ≤ n := by decide +kernel
  have large : e.write = .error .tooLarge :=
    Expr.write_tooLarge (.integer n trivial) ⟨n, List.mem_cons_self, beyond⟩
  refine ⟨readSource_toDigits short {}, ?_⟩
  rw [Expr.source, large]
  rfl

end PipeExpr
