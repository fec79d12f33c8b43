import PipeExpr.Proofs.Reading.Relabelling
import PipeExpr.Proofs.Scanning.Respacing
import PipeExpr.Reading.Outcome

set_option autoImplicit false

namespace PipeExpr

/-- The tokens have one number in the two lists. -/
def Paired (tokens tokens' : List Token) (t t' : Token) : Prop :=
  ∃ k : Nat, tokens[k]? = some t ∧ tokens'[k]? = some t'

variable {tokens tokens' : List Token}

theorem Paired.terminal_eq {t t' : Token} (h : Paired tokens tokens' t t')
    (same : tokens'.map Token.lexeme = tokens.map Token.lexeme) : t.terminal = t'.terminal := by
  obtain ⟨k, here, here'⟩ := h
  have lexeme : (tokens'.map Token.lexeme)[k]? = (tokens.map Token.lexeme)[k]? :=
    congrArg (·[k]?) same
  rw [List.getElem?_map, List.getElem?_map, here, here', Option.map_some, Option.map_some,
    Option.some.injEq, Token.lexeme, Token.lexeme, Prod.mk.injEq, Prod.mk.injEq] at lexeme
  rw [Token.terminal, Token.terminal, lexeme.1, lexeme.2.1]

theorem forall₂_paired (same : tokens'.map Token.lexeme = tokens.map Token.lexeme) :
    List.Forall₂ (Paired tokens tokens') tokens tokens' := by
  have length : tokens.length = tokens'.length := by
    simpa using (congrArg List.length same).symm
  refine List.forall₂_iff_get.mpr ⟨length, fun k inside inside' => ⟨k, ?_, ?_⟩⟩
  · exact List.getElem?_eq_getElem inside
  · exact List.getElem?_eq_getElem inside'

/-- Two refusals of tokens that are alike; no other failures are. -/
inductive SourceError.Alike (R : Token → Token → Prop) : SourceError → SourceError → Prop
  | read {e e' : ReadError} : e.Alike R e' → Alike R (.read e) (.read e')

/-- One tree, or two refusals of which the reasons and the numbers of the tokens agree. -/
def SameReading (tokens tokens' : List Token) : ReadOutcome → ReadOutcome → Prop :=
  Outcomes (SourceError.Alike (Paired tokens tokens')) Eq

theorem sameReading_of_scan {readAll : String → List Token → Except ReadError Expr}
    {source source' : String} (scanned : scan source = .ok tokens)
    (scanned' : scan source' = .ok tokens')
    (h : Outcomes (ReadError.Alike (Paired tokens tokens')) Eq (readAll source tokens)
      (readAll source' tokens')) :
    SameReading tokens tokens' (readSourceBy readAll source) (readSourceBy readAll source') := by
  unfold readSourceBy
  rw [scanned, scanned']
  simp only
  generalize readAll source tokens = outcome at h
  generalize readAll source' tokens' = outcome' at h
  cases h with
  | ok eq => exact .ok eq
  | error alike => exact .error (.read alike)

/-- Other gaps give the same lexemes and the same reading, as long as no gap between two tokens is
    closed. -/
theorem readSource_spaced {source : String} {gaps : List (List Char)} {last : List Char}
    (scanned : scan source = .ok tokens) (spacing : Spacing tokens gaps) (blanks : IsBlanks last) :
    let source' := String.ofList (spaced gaps (tokens.map Token.chars) last)
    ∃ tokens', scan source' = .ok tokens' ∧
      tokens'.map Token.lexeme = tokens.map Token.lexeme ∧
      ∀ limits ceiling,
        SameReading tokens tokens' (readSource limits source) (readSource limits source') ∧
        SameReading tokens tokens' (readSourceBelowCeiling limits source ceiling)
          (readSourceBelowCeiling limits source' ceiling) := by
  intro source'
  obtain ⟨tokens', scanned', same⟩ := scan_spaced scanned spacing blanks
  have terminals : ∀ t t', Paired tokens tokens' t t' → t.terminal = t'.terminal :=
    fun t t' paired => paired.terminal_eq same
  have paired := forall₂_paired same
  refine ⟨tokens', scanned', same, fun limits ceiling => ⟨?_, ?_⟩⟩
  · exact sameReading_of_scan scanned scanned'
      (readTokens_alike terminals paired limits source source')
  · exact sameReading_of_scan scanned scanned'
      (readBelowCeiling_alike terminals paired limits ceiling source source')

theorem readSource_spaced_unclosed :
    let tokens : List Token :=
      [⟨.reference, .string "f", ⟨0, 1, 1⟩, "f"⟩, ⟨.special, .string "(", ⟨2, 1, 3⟩, "("⟩,
        ⟨.value, .int 1, ⟨3, 1, 4⟩, "1"⟩]
    scan "f (1" = .ok tokens ∧ ∃ tokens', scan "f\n\t( 1 " = .ok tokens' ∧
      SameReading tokens tokens' (readSource {} "f (1") (readSource {} "f\n\t( 1 ") := by
  intro tokens
  have scanned : scan "f (1" = .ok tokens := by rfl
  have spacing : Spacing tokens [[], ['\n', '\t'], [' ']] := by
    refine ⟨rfl, by decide, ?_⟩
    intro i t u _ _ _
    rcases i with _ | _ | i <;> simp
  have blanks : IsBlanks [' '] := by decide
  obtain ⟨tokens', scanned', -, same⟩ := readSource_spaced scanned spacing blanks
  exact ⟨scanned, tokens', scanned', (same {} {}).1⟩

end PipeExpr
