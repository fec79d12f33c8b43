import PipeExpr.Proofs.Reading.ErrorLocation
import PipeExpr.Proofs.Reading.Relabelling

set_option autoImplicit false

namespace PipeExpr
open Scanner

/-- One error, but that an error at the end of the input is told once at `stop` and once at
    `stop'`. -/
structure ReadError.EndsApart (stop stop' : Location) (e e' : ReadError) : Prop where
  reason : e.reason = e'.reason
  token : e.token = e'.token
  location : if e.token = none then e.location = stop ∧ e'.location = stop'
    else e.location = e'.location

theorem ReadReason.Alike.eq {reason reason' : ReadReason} (h : reason.Alike Eq reason') :
    reason = reason' := by
  cases h with
  | same => rfl
  | unclosedGroup same => rw [same]

namespace ReadError

variable {e e' : ReadError} {tokens : List Token} {stop stop' : Location}

theorem Alike.endsApart (alike : e.Alike Eq e') (placed : e.Placed tokens stop)
    (placed' : e'.Placed tokens stop') : e.EndsApart stop stop' e' := by
  have reason := alike.reason.eq
  cases alike with
  | atToken _ same =>
    subst same
    exact ⟨reason, rfl, rfl⟩
  | atEnd =>
    cases placed
    cases placed'
    exact ⟨reason, rfl, rfl, rfl⟩

theorem EndsApart.eq (h : e.EndsApart stop stop e') : e = e' := by
  have place : e.location = e'.location := by
    have known := h.location
    split at known
    case isTrue => rw [known.1, known.2]
    case isFalse => exact known
  obtain ⟨reason, location, token⟩ := e
  obtain ⟨reason', location', token'⟩ := e'
  cases h.reason
  cases h.token
  cases place
  rfl

end ReadError

theorem Outcomes.errors {ε ε' α β : Type} {E E' : ε → ε' → Prop} {V : α → β → Prop}
    {outcome : Except ε α} {outcome' : Except ε' β} (h : Outcomes E V outcome outcome')
    (errors : ∀ e e', outcome = .error e → outcome' = .error e' → E e e' → E' e e') :
    Outcomes E' V outcome outcome' := by
  cases h with
  | ok values => exact .ok values
  | error related => exact .error (errors _ _ rfl rfl related)

variable {source : String} {tokens : List Token} {last : Token} {s s' : Scanner}

theorem readAll_endsApart (limits ceiling : Limits) (source source' : String) (tokens : List Token)
    {readAll : String → List Token → Except ReadError Expr}
    (h : readAll ∈ [readTokens limits, (readBelowCeiling limits · · ceiling)]) :
    Outcomes (ReadError.EndsApart (endOfInput source tokens) (endOfInput source' tokens)) Eq
      (readAll source tokens) (readAll source' tokens) := by
  have terminals : ∀ t u : Token, t = u → t.terminal = u.terminal := fun _ _ => congrArg _
  have same : List.Forall₂ Eq tokens tokens := List.forall₂_same.mpr fun _ _ => rfl
  rcases List.mem_pair.mp h with rfl | rfl
  · apply (readTokens_alike terminals same limits source source').errors
    exact fun e e' refused refused' alike =>
      alike.endsApart (readTokens_error refused) (readTokens_error refused')
  · apply (readBelowCeiling_alike terminals same limits ceiling source source').errors
    exact fun e e' refused refused' alike =>
      alike.endsApart (readBelowCeiling_error refused) (readBelowCeiling_error refused')

theorem Scanner.Delivers.location_eq (h : Delivers s tokens s')
    (getLast : tokens.getLast? = some last) : s'.location = last.finish := by
  induction h with
  | done => cases getLast
  | @cons s s' s'' t tokens moved delivered ih =>
    cases delivered with
    | done =>
      cases getLast
      obtain ⟨gap, p, -, -, -, -, -, stop⟩ := moved.token_inv
      rw [stop]
      exact t.finish_eq_advance.symm
    | cons moved' delivered' =>
      rw [List.getLast?_cons_cons] at getLast
      exact ih getLast

theorem endOfInput_empty (getLast : tokens.getLast? = some last) :
    endOfInput "" tokens = last.finish := by
  simp only [endOfInput, getLast]

theorem finish_getLast_of_scan (scanned : scan source = .ok tokens)
    (getLast : tokens.getLast? = some last)
    (solid : ∀ c, source.toList.getLast? = some c → Text.isBlank c = false) :
    last.finish = Location.start.advance source.toList := by
  obtain ⟨s, s', delivered, finished⟩ := scan_eq_ok_iff.mp scanned
  obtain ⟨front, whole, here⟩ := ((placed_ofSource source).delivers delivered).1
  rw [← delivered.location_eq getLast, here, ← whole]
  cases finished with
  | @finish gap l blanks =>
    cases final : gap.getLast? with
    | none => rw [List.getLast?_eq_none_iff.mp final, List.append_nil]
    | some c =>
      have atEnd : source.toList.getLast? = some c := by
        rw [← whole, List.getLast?_append, final]
        rfl
      have blank := blanks c (List.mem_of_getLast? final)
      rw [solid c atEnd] at blank
      cases blank

/-- Reading the tokens of a source without the source gives the same tree or the same error, but
    that an error at the end of the input is told behind the last token, not at the end of the
    source. If no white space lies in between, nothing differs. -/
theorem readTokens_without_source (limits ceiling : Limits) (scanned : scan source = .ok tokens)
    (getLast : tokens.getLast? = some last) :
    let stop := Location.ofPosition source.toList (last.start.position + last.text.length)
    let stop' := Location.ofPosition source.toList source.length
    last.finish = stop ∧
    ∀ readAll ∈ [readTokens limits, (readBelowCeiling limits · · ceiling)],
      Outcomes (ReadError.EndsApart stop stop') Eq (readAll "" tokens) (readAll source tokens) ∧
      ((∀ c, source.toList.getLast? = some c → Text.isBlank c = false) →
        readAll "" tokens = readAll source tokens) := by
  intro stop stop'
  have finish : last.finish = stop := by
    have located := located_of_scan scanned last (List.mem_of_getLast? getLast)
    rw [located.finish_eq, Token.chars, String.length_toList]
  have whole : Location.start.advance source.toList = stop' := by
    have reached := Location.start_advance source.toList []
    rw [List.append_nil, String.length_toList] at reached
    exact reached
  refine ⟨finish, fun readAll mem => ?_⟩
  have outcomes := readAll_endsApart limits ceiling "" source tokens mem
  rw [endOfInput_empty getLast, endOfInput_of_scan scanned] at outcomes
  refine ⟨?_, fun solid => ?_⟩
  · rw [finish, whole] at outcomes
    exact outcomes
  · rw [finish_getLast_of_scan scanned getLast solid] at outcomes
    generalize readAll "" tokens = outcome at outcomes
    generalize readAll source tokens = outcome' at outcomes
    cases outcomes with
    | ok eq => rw [eq]
    | error apart => rw [apart.eq]

theorem readTokens_without_source_unclosed :
    let opener : Token := ⟨.special, .string "(", .start, "("⟩
    let text : Token := ⟨.value, .string "\n", ⟨2, 1, 3⟩, "\"\n\""⟩
    let stop : Location := ⟨5, 2, 2⟩
    scan "( \"\n\" " = .ok [opener, text] ∧ scan "( \"\n\"" = .ok [opener, text] ∧
      [opener, text].getLast? = some text ∧ text.finish = stop ∧
      readTokens {} "" [opener, text] = .error (.atEnd (.unclosedGroup 0) stop) ∧
      readTokens {} "( \"\n\" " [opener, text] = .error (.atEnd (.unclosedGroup 0) ⟨6, 2, 3⟩) ∧
      Outcomes (ReadError.EndsApart stop ⟨6, 2, 3⟩) Eq (readTokens {} "" [opener, text])
        (readTokens {} "( \"\n\" " [opener, text]) ∧
      readTokens {} "" [opener, text] = readTokens {} "( \"\n\"" [opener, text] := by
  intro opener text stop
  have spaced : scan "( \"\n\" " = .ok [opener, text] := by rfl
  have scanned : scan "( \"\n\"" = .ok [opener, text] := by rfl
  have getLast : [opener, text].getLast? = some text := rfl
  obtain ⟨finish, apart⟩ := readTokens_without_source {} {} spaced getLast
  obtain ⟨-, same⟩ := readTokens_without_source {} {} scanned getLast
  have solid : ∀ c, "( \"\n\"".toList.getLast? = some c → Text.isBlank c = false := by
    rintro c ⟨⟩
    rfl
  subst stop text opener
  exact ⟨spaced, scanned, getLast, finish, by rfl, by rfl, (apart _ List.mem_cons_self).1,
    (same _ List.mem_cons_self).2 solid⟩

end PipeExpr
