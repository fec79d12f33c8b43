import PipeExpr.Proofs.Grammar.Groups
import PipeExpr.Proofs.Reading.Regularity

set_option autoImplicit false

namespace PipeExpr
open Grammar
open Terminal (symbol)

theorem Token.isSpecial_group (t : Token) : t.isSpecial ["("] = (t.terminal == symbol "(") := by
  rw [Bool.eq_iff_iff]
  simp [Token.isSpecial, Token.terminal, symbol, Scalar.same_string_iff]

theorem countP_isSpecial_group (tokens : List Token) :
    tokens.countP (·.isSpecial ["("]) = groups (tokens.map Token.terminal) := by
  rw [groups, List.count, List.countP_map]
  apply List.countP_congr
  intro t _
  rw [Token.isSpecial_group]
  rfl

theorem Expr.Regular.lexes_source {e : Expr} {text : String} (regular : e.Regular fun _ => True)
    (written : e.source = .ok text) : Lexes text.toList e.terminals := by
  rcases Expr.written_or_tooLarge regular (Expr.write_tooLarge regular) with writes | tooLarge
  · obtain ⟨text', same, lexes⟩ := writes.source
    cases written.symm.trans same
    exact lexes
  · rw [Expr.source, tooLarge] at written
    cases written

variable {limits limits' : Limits} {source text : String} {e e' : Expr}

/-- The limits decide only whether a source is read. -/
theorem readSource_unique (h : readSource limits source = .ok e)
    (h' : readSource limits' source = .ok e') : e = e' := by
  obtain ⟨tokens, scanned, read⟩ := readSourceBy_eq_ok_iff.mp h
  obtain ⟨tokens', scanned', read'⟩ := readSourceBy_eq_ok_iff.mp h'
  cases scanned.symm.trans scanned'
  exact (pipeline_of_readTokens read).unique (pipeline_of_readTokens read')

theorem readSource_written (h : readSource limits source = .ok e) (written : e.source = .ok text) :
    readSource limits text = .ok e := by
  obtain ⟨as, lexes, derived⟩ := readSource_eq_ok_iff.mp h
  have regular : e.Regular fun _ => True := derived.regular lexes.scanned
  have canonical : Pipeline limits.depth e.terminals e := (derived.canonical regular).pipeline
  exact readSource_eq_ok_iff.mpr ⟨e.terminals, regular.lexes_source written, canonical⟩

/-- No source of a tree has fewer opening parentheses than the text that the tree is written as, and
    none nests its brackets less. So the text is read within all limits that the source is read
    within. -/
theorem source_fewest_groups
    (h : readSource limits source = .ok e ∨
      ∃ ceiling, readSourceBelowCeiling limits source ceiling = .ok e)
    (written : e.source = .ok text) :
    ∃ tokens tokens', scan source = .ok tokens ∧ scan text = .ok tokens' ∧
      tokens'.countP (·.isSpecial ["("]) ≤ tokens.countP (·.isSpecial ["("]) ∧
      nesting (tokens'.map Token.terminal) ≤ nesting (tokens.map Token.terminal) ∧
      ∀ (limits' ceiling : Limits) (e' : Expr),
        (readSource limits' source = .ok e' → e' = e ∧ readSource limits' text = .ok e) ∧
        (readSourceBelowCeiling limits' source ceiling = .ok e' →
          e' = e ∧ readSourceBelowCeiling limits' text ceiling = .ok e) := by
  obtain ⟨limits, -, read⟩ := exists_readSource h
  obtain ⟨tokens, scanned, readAll⟩ := readSourceBy_eq_ok_iff.mp read
  have derived : Pipeline limits.depth (tokens.map Token.terminal) e :=
    pipeline_of_readTokens readAll
  have lexes : Lexes source.toList (tokens.map Token.terminal) :=
    scan_ok_iff.mp ⟨tokens, scanned, rfl⟩
  have regular : e.Regular fun _ => True := derived.regular lexes.scanned
  obtain ⟨tokens', scanned', canonical⟩ := scan_ok_iff.mpr (regular.lexes_source written)
  have again : ∀ {limits' : Limits} {e' : Expr}, readSource limits' source = .ok e' →
      e' = e ∧ readSource limits' text = .ok e := by
    intro limits' e' read'
    obtain rfl := readSource_unique read' read
    exact ⟨rfl, readSource_written read' written⟩
  refine ⟨tokens, tokens', scanned, scanned', ?_, ?_, fun limits' ceiling e' => ⟨again, ?_⟩⟩
  · rw [countP_isSpecial_group, countP_isSpecial_group, canonical]
    exact derived.groups_le
  · -- Within its own nesting the source derives the tree, and the text needs no more levels.
    have tight := (derived.iff_nesting_le).mpr (Nat.le_refl (nesting (tokens.map Token.terminal)))
    have shallow := (tight.canonical regular).pipeline
    rw [canonical]
    exact shallow.iff_nesting_le.mp shallow
  · rw [readSourceBelowCeiling_eq_ok_iff, readSourceBelowCeiling_eq_ok_iff]
    exact again

theorem source_fewest_groups_call :
    let e : Expr := .application (.reference ["f"])
      [.application (.reference ["g"]) [.reference ["x"]]]
    readSource {} "(f) ((g x))" = .ok e ∧ e.source = .ok "f (g x)" ∧
      ∃ tokens tokens', scan "(f) ((g x))" = .ok tokens ∧ scan "f (g x)" = .ok tokens' ∧
        tokens'.countP (·.isSpecial ["("]) ≤ tokens.countP (·.isSpecial ["("]) ∧
        nesting (tokens'.map Token.terminal) ≤ nesting (tokens.map Token.terminal) ∧
        ∀ (limits' ceiling : Limits) (e' : Expr),
          (readSource limits' "(f) ((g x))" = .ok e' →
            e' = e ∧ readSource limits' "f (g x)" = .ok e) ∧
          (readSourceBelowCeiling limits' "(f) ((g x))" ceiling = .ok e' →
            e' = e ∧ readSourceBelowCeiling limits' "f (g x)" ceiling = .ok e) := by
  intro e
  have read : readSource {} "(f) ((g x))" = .ok e := by rfl
  have written : e.source = .ok "f (g x)" := by rfl
  exact ⟨read, written, source_fewest_groups (.inl read) written⟩

end PipeExpr
