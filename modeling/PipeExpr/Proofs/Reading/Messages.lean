import PipeExpr.Proofs.Reading.Ends

set_option autoImplicit false

namespace PipeExpr

/-- The message of the error can be written, or the limit is too long for it, or the token is that
    the error is at. -/
def ReadError.Told (limits : Limits) (e : ReadError) : Prop :=
  e.message? = none →
    10 ^ maxIntegerDigits ≤ limits.depth ∨ ∃ t, e.token = some t ∧ t.Overlong

theorem ReadError.Told.mono {limits limits' : Limits} {e : ReadError} (h : e.Told limits)
    (le : limits.depth ≤ limits'.depth) : e.Told limits' :=
  fun untold => (h untold).imp_left fun long => Nat.le_trans long le

theorem ReadError.told_of_message {limits : Limits} {e : ReadError} {message : String}
    (h : e.message? = some message) : e.Told limits :=
  fun untold => absurd (h.symm.trans untold) (Option.some_ne_none message)

namespace ReadContext

variable {ctx : ReadContext} {s : ReadState} {t : Token} {reason : ReadReason} {e : ReadError}
  {ts : List Token} {l : Location}

theorem Refuses.told (h : ctx.Refuses t reason) : (ReadError.atToken reason t).Told ctx.limits := by
  intro untold
  rcases h.untold (Option.map_eq_none_iff.mp untold) with limit | overlong
  · exact .inl limit
  · exact .inr ⟨t, rfl, overlong⟩

theorem message?_of_atEnd (h : s.atEnd = .error reason) : reason.message? ≠ none := by
  obtain ⟨frames, focus⟩ := s
  cases focus with
  | path | operand =>
    cases frames with
    | nil => cases h
    | cons frame _ => cases frame <;> cases h <;> nofun
  | start | stage | segment | key | colon =>
    cases h
    nofun

theorem read_told (h : ctx.read l ts = .error e) : e.Told ctx.limits := by
  rcases run_error h with ⟨s, reason, -, ends, rfl⟩ | ⟨before, t, after, s, rfl, moved, stop⟩
  · exact fun untold => absurd (Option.map_eq_none_iff.mp untold) (message?_of_atEnd ends)
  · rcases step_fail stop with ⟨reason, rfl, refuses⟩ | ⟨-, opener, outer, frames, -, rfl⟩
    · exact refuses.told
    · exact ReadError.told_of_message rfl

end ReadContext

open ReadContext

variable {limits : Limits} {source : String} {tokens : List Token} {e : ReadError}

theorem readTokens_told (h : readTokens limits source tokens = .error e) : e.Told limits := by
  simp only [readTokens] at h
  split at h
  case isTrue =>
    cases h
    exact ReadError.told_of_message rfl
  case isFalse =>
    split at h
    case h_1 => cases h
    case h_2 result t after outcome =>
      cases h
      obtain ⟨before, s, -, -, ends⟩ := run_eq_ok_iff.mp outcome
      have rule : ReadContext.rule { limits := limits } ≠ .primary := by simp
      have refuses : Refuses { limits := limits } t (.unexpectedToken t.value) :=
        refuses_unexpectedToken (kind_ne_value_of_step_done rule ends)
      exact refuses.told
    case h_3 error outcome =>
      cases h
      exact read_told outcome

theorem readBelowCeiling_told {ceiling : Limits}
    (h : readBelowCeiling limits source tokens ceiling = .error e) : e.Told limits := by
  unfold readBelowCeiling at h
  split at h
  case isTrue => exact readTokens_told h
  case isFalse beyond =>
    split at h
    case h_1 outcome =>
      split at h
      case h_1 =>
        cases h
        exact ReadError.told_of_message rfl
      case h_2 => cases outcome
    case h_2 => exact (readTokens_told h).mono (Nat.le_of_not_le beyond)

end PipeExpr
