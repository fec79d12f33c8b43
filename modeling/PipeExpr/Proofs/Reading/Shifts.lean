import Mathlib.Data.List.Basic
import PipeExpr.Proofs.Reading.Steps
import PipeExpr.Reading.Run

set_option autoImplicit false

namespace PipeExpr.ReadContext

/-- The state after all of the tokens are taken in, if none of them ends the rule or fails. -/
def shifts (ctx : ReadContext) (s : ReadState) : List Token → Option ReadState
  | [] => some s
  | t :: rest =>
    match ctx.step s t with
    | .shift next => ctx.shifts next rest
    | _ => none

theorem shifts_append (ctx : ReadContext) (s : ReadState) (ts us : List Token) :
    ctx.shifts s (ts ++ us) = (ctx.shifts s ts).bind (ctx.shifts · us) := by
  induction ts generalizing s with
  | nil => rfl
  | cons t ts ih =>
    simp only [List.cons_append, shifts]
    cases ctx.step s t with
    | shift next => exact ih next
    | done _ => rfl
    | fail _ => rfl

variable {ctx : ReadContext} {s s' s'' : ReadState} {t : Token} {ts us : List Token}

theorem shifts_trans (first : ctx.shifts s ts = some s') (second : ctx.shifts s' us = some s'') :
    ctx.shifts s (ts ++ us) = some s'' := by
  rw [shifts_append, first]
  exact second

theorem shifts_cons_iff :
    ctx.shifts s (t :: us) = some s'' ↔
      ∃ s', ctx.Shift t s s' ∧ ctx.shifts s' us = some s'' := by
  simp only [← shift_iff, shifts]
  cases ctx.step s t <;> simp

theorem Shift.cons (first : ctx.Shift t s s') (second : ctx.shifts s' us = some s'') :
    ctx.shifts s (t :: us) = some s'' :=
  shifts_cons_iff.mpr ⟨s', first, second⟩

theorem shifts_concat_iff :
    ctx.shifts s (ts ++ [t]) = some s'' ↔
      ∃ s', ctx.shifts s ts = some s' ∧ ctx.Shift t s' s'' := by
  rw [shifts_append, Option.bind_eq_some_iff]
  apply exists_congr
  intro s'
  apply and_congr_right
  intro _
  rw [shifts_cons_iff]
  constructor
  · rintro ⟨_, moved, rest⟩
    cases rest
    exact moved
  · exact fun moved => ⟨s'', moved, rfl⟩

theorem run_append (h : ctx.shifts s ts = some s') (inputEnd : Location) (us : List Token) :
    ctx.run inputEnd s (ts ++ us) = ctx.run inputEnd s' us := by
  induction ts generalizing s with
  | nil =>
    cases h
    rfl
  | cons t ts ih =>
    obtain ⟨next, moved, rest⟩ := shifts_cons_iff.mp h
    rw [List.cons_append, run, moved.step_eq]
    exact ih rest

/-- A run takes in all of the tokens, or only those before the one that ends the rule or fails. -/
theorem run_cases (ctx : ReadContext) (s : ReadState) (ts : List Token) :
    (∃ s', ctx.shifts s ts = some s') ∨
      ∃ before t after s', ts = before ++ t :: after ∧ ctx.shifts s before = some s' ∧
        ((∃ result, ctx.step s' t = .done result) ∨ ∃ e, ctx.step s' t = .fail e) := by
  induction ts generalizing s with
  | nil => exact .inl ⟨s, rfl⟩
  | cons t ts ih =>
    cases moved : ctx.step s t with
    | shift next =>
      have first := shift_iff.mp moved
      rcases ih next with ⟨s', h⟩ | ⟨before, u, after, s', rfl, h, stop⟩
      · exact .inl ⟨s', first.cons h⟩
      · exact .inr ⟨t :: before, u, after, s', rfl, first.cons h, stop⟩
    | done result => exact .inr ⟨[], t, ts, s, rfl, rfl, .inl ⟨result, moved⟩⟩
    | fail e => exact .inr ⟨[], t, ts, s, rfl, rfl, .inr ⟨e, moved⟩⟩

theorem atEnd_eq_ok_iff {e : Expr} :
    s.atEnd = .ok e ↔ ∃ p last, Settled [] p last s ∧ p.pipeline last = e := by
  constructor
  · intro h
    obtain ⟨frames, focus⟩ := s
    cases focus with
    | path p segments =>
      cases frames with
      | nil => exact ⟨p, _, .path segments rfl, Except.ok.inj h⟩
      | cons frame _ => cases frame <;> cases h
    | operand p last =>
      cases frames with
      | nil => exact ⟨p, last, .operand, Except.ok.inj h⟩
      | cons frame _ => cases frame <;> cases h
    | start | stage | segment | key | colon => cases h
  · rintro ⟨p, last, settled, rfl⟩
    rw [atEnd_settled settled]
    rfl

variable {limits : Limits} {tokens before : List Token} {e : Expr}

theorem readTokens_of_atEnd_ok (moved : shifts { limits := limits } {} tokens = some s)
    (ends : s.atEnd = .ok e) (source : String) : readTokens limits source tokens = .ok e := by
  have nonempty : tokens.isEmpty = false := by
    cases tokens with
    | nil =>
      cases moved
      cases ends
    | cons t rest => rfl
  have all := run_append moved (endOfInput source tokens) []
  rw [List.append_nil] at all
  simp only [readTokens, nonempty, read, all, run, ends, Bool.false_eq_true, if_false]

theorem readTokens_of_atEnd_error {reason : ReadReason}
    (moved : shifts { limits := limits } {} tokens = some s) (ends : s.atEnd = .error reason)
    (source : String) : ∃ e, readTokens limits source tokens = .error e ∧ e.token = none := by
  by_cases empty : tokens = []
  · subst empty
    exact ⟨_, rfl, rfl⟩
  · have nonempty : tokens.isEmpty = false := List.isEmpty_eq_false_iff.mpr empty
    have all := run_append moved (endOfInput source tokens) []
    rw [List.append_nil] at all
    refine ⟨.atEnd reason (endOfInput source tokens), ?_, rfl⟩
    simp only [readTokens, nonempty, read, all, run, ends, Bool.false_eq_true, if_false]

theorem readTokens_of_done {result : Expr}
    (moved : shifts { limits := limits } {} before = some s)
    (stop : step { limits := limits } s t = .done result) (source : String)
    (after : List Token) : readTokens limits source (before ++ t :: after) =
      .error (.atToken (.unexpectedToken t.value) t) := by
  have nonempty : (before ++ t :: after).isEmpty = false := by simp
  simp only [readTokens, nonempty, read, run_append moved, run, stop, Bool.false_eq_true, if_false]

theorem readTokens_of_fail {error : ReadError}
    (moved : shifts { limits := limits } {} before = some s)
    (stop : step { limits := limits } s t = .fail error) (source : String)
    (after : List Token) : readTokens limits source (before ++ t :: after) = .error error := by
  have nonempty : (before ++ t :: after).isEmpty = false := by simp
  simp only [readTokens, nonempty, read, run_append moved, run, stop, Bool.false_eq_true, if_false]

theorem readTokens_eq_ok_iff {source : String} :
    readTokens limits source tokens = .ok e ↔
      ∃ s, shifts { limits := limits } {} tokens = some s ∧ s.atEnd = .ok e := by
  refine ⟨fun h => ?_, fun ⟨s, moved, ends⟩ => readTokens_of_atEnd_ok moved ends source⟩
  rcases run_cases { limits := limits } {} tokens with
    ⟨s, moved⟩ | ⟨before, t, after, s, rfl, moved, ⟨result, stop⟩ | ⟨error, stop⟩⟩
  · refine ⟨s, moved, ?_⟩
    cases ends : s.atEnd with
    | ok result =>
      rw [readTokens_of_atEnd_ok moved ends] at h
      exact congrArg Except.ok (Except.ok.inj h)
    | error reason =>
      obtain ⟨error, refused, -⟩ := readTokens_of_atEnd_error moved ends source
      rw [refused] at h
      cases h
  · rw [readTokens_of_done moved stop] at h
    cases h
  · rw [readTokens_of_fail moved stop] at h
    cases h

end PipeExpr.ReadContext
