import Mathlib.Data.List.Forall2
import Mathlib.Data.Option.Basic
import PipeExpr.Proofs.Reading.Terminals
import PipeExpr.Reading.Run

/-!
# The same tokens at other places

Two token lists that agree but for the places of the tokens are read in lockstep: the states differ
in the openers that open groups remember, and the outcomes in the tokens that errors stand at.
-/

set_option autoImplicit false

namespace PipeExpr

inductive Outcomes {ε ε' α β : Type} (E : ε → ε' → Prop) (V : α → β → Prop) :
    Except ε α → Except ε' β → Prop
  | ok {a : α} {b : β} : V a b → Outcomes E V (.ok a) (.ok b)
  | error {e : ε} {e' : ε'} : E e e' → Outcomes E V (.error e) (.error e')

theorem Token.role_congr {t u : Token} (h : t.terminal = u.terminal) : t.role = u.role := by
  obtain ⟨kind, value, start, text⟩ := t
  obtain ⟨kind', value', start', text'⟩ := u
  cases h
  rfl

variable (R : Token → Token → Prop)

/-- One reason, but for the position of the opener that an unclosed group tells. -/
inductive ReadReason.Alike : ReadReason → ReadReason → Prop
  | same (reason : ReadReason) : Alike reason reason
  | unclosedGroup {t u : Token} :
      R t u → Alike (.unclosedGroup t.start.position) (.unclosedGroup u.start.position)

/-- Alike reasons at related tokens, or both at the end of the input. -/
inductive ReadError.Alike : ReadError → ReadError → Prop
  | atToken {reason reason' : ReadReason} {t u : Token} :
      reason.Alike R reason' → R t u → Alike (.atToken reason t) (.atToken reason' u)
  | atEnd {reason reason' : ReadReason} (l l' : Location) :
      reason.Alike R reason' → Alike (.atEnd reason l) (.atEnd reason' l')

inductive Frame.Alike : Frame → Frame → Prop
  | group {opener opener' : Token} (outer : Pending) :
      R opener opener' → Alike (.group opener outer) (.group opener' outer)
  | array (elements : List Expr) (outer : Pending) :
      Alike (.array elements outer) (.array elements outer)
  | object (ms : List (String × Expr)) (key : String) (outer : Pending) :
      Alike (.object ms key outer) (.object ms key outer)

inductive ReadState.Alike : ReadState → ReadState → Prop
  | intro {frames frames' : List Frame} (focus : Focus) :
      List.Forall₂ (Frame.Alike R) frames frames' → Alike ⟨frames, focus⟩ ⟨frames', focus⟩

inductive ReadStep.Alike : ReadStep → ReadStep → Prop
  | shift {s s' : ReadState} : s.Alike R s' → Alike (.shift s) (.shift s')
  | done (result : Expr) : Alike (.done result) (.done result)
  | fail {e e' : ReadError} : e.Alike R e' → Alike (.fail e) (.fail e')

namespace ReadContext

variable {R} {ctx : ReadContext} {frames frames' : List Frame} {t u : Token}

theorem fail_alike (reason : ReadReason) (related : R t u) :
    ReadStep.Alike R (.fail (.atToken reason t)) (.fail (.atToken reason u)) :=
  .fail (.atToken (.same reason) related)

theorem shift_alike (h : List.Forall₂ (Frame.Alike R) frames frames') (focus : Focus) :
    ReadStep.Alike R (.shift ⟨frames, focus⟩) (.shift ⟨frames', focus⟩) :=
  .shift (.intro focus h)

theorem nest_alike (h : List.Forall₂ (Frame.Alike R) frames frames') (related : R t u)
    {s s' : ReadState} (inside : s.Alike R s') :
    (ctx.nest frames t s).Alike R (ctx.nest frames' u s') := by
  unfold nest
  rw [h.length_eq]
  split
  · exact fail_alike _ related
  · exact .shift inside

/-- Both tokens begin an operand, or neither does. -/
theorem begin?_alike (ctx : ReadContext) (h : List.Forall₂ (Frame.Alike R) frames frames')
    (related : R t u) (role : t.role = u.role) (p : Pending) :
    (ctx.begin? frames p t = none ∧ ctx.begin? frames' p u = none) ∨
      ∃ next next', ctx.begin? frames p t = some next ∧ ctx.begin? frames' p u = some next' ∧
        next.Alike R next' := by
  unfold begin?
  rw [role]
  split
  case h_1 => exact .inr ⟨_, _, rfl, rfl, shift_alike h _⟩
  case h_2 => exact .inr ⟨_, _, rfl, rfl, shift_alike h _⟩
  case h_3 => exact .inr ⟨_, _, rfl, rfl, fail_alike _ related⟩
  case h_4 =>
    have inside := List.Forall₂.cons (Frame.Alike.group p related) h
    exact .inr ⟨_, _, rfl, rfl, nest_alike h related (.intro _ inside)⟩
  case h_5 =>
    have inside := List.Forall₂.cons (Frame.Alike.array [] p) h
    exact .inr ⟨_, _, rfl, rfl, nest_alike h related (.intro _ inside)⟩
  case h_6 => exact .inr ⟨_, _, rfl, rfl, nest_alike h related (.intro _ h)⟩
  case h_7 => exact .inl ⟨rfl, rfl⟩

theorem start_refused {fresh : Bool} (none : ctx.begin? frames {} t = none)
    (noGroup : t.role ≠ .symbol .closeGroup) (noArray : t.role ≠ .symbol .closeArray) :
    ctx.start frames fresh t = .fail (.atToken
      (if t.role = .symbol .pipe then .nothingBeforePipe else .unexpectedToken t.value) t) := by
  unfold start
  rw [none]
  simp only
  split <;> simp_all

theorem start_alike (h : List.Forall₂ (Frame.Alike R) frames frames') (related : R t u)
    (role : t.role = u.role) (value : t.value = u.value) (fresh : Bool) :
    (ctx.start frames fresh t).Alike R (ctx.start frames' fresh u) := by
  rcases begin?_alike ctx h related role {} with ⟨none, none'⟩ | ⟨_, _, begun, begun', alike⟩
  · -- Only right behind its opener is a closing bracket more than any other token.
    by_cases closeGroup : u.role = .symbol .closeGroup
    · simp only [start, none, none', role, value, closeGroup]
      rcases fresh with _ | _
      · exact fail_alike _ related
      · rcases h with _ | ⟨⟨outer, opener⟩ | _ | _, rest⟩
        case cons.group => exact fail_alike _ opener
        all_goals exact fail_alike _ related
    by_cases closeArray : u.role = .symbol .closeArray
    · simp only [start, none, none', role, value, closeArray]
      rcases fresh with _ | _
      · exact fail_alike _ related
      · rcases h with _ | ⟨_ | ⟨elements, outer⟩ | _, rest⟩
        case cons.array => exact shift_alike rest _
        all_goals exact fail_alike _ related
    rw [start_refused none (role ▸ closeGroup) (role ▸ closeArray),
      start_refused none' closeGroup closeArray, role, value]
    exact fail_alike _ related
  · simp only [start, begun, begun']
    exact alike

theorem close_alike (h : List.Forall₂ (Frame.Alike R) frames frames') (related : R t u)
    (role : t.role = u.role) (result : Expr) :
    (close frames result t).Alike R (close frames' result u) := by
  cases h with
  | nil => exact .done result
  | cons first rest =>
    cases first with
    | group outer opener =>
      simp only [close, role]
      split
      · exact shift_alike rest _
      · exact .fail (.atToken (.unclosedGroup opener) related)
    | array elements outer =>
      simp only [close, role]
      split
      · exact shift_alike (.cons (.array _ outer) rest) _
      · exact shift_alike rest _
      · exact fail_alike _ related
    | object ms k outer =>
      simp only [close, role]
      split
      · exact shift_alike rest _
      · exact shift_alike rest _
      · exact fail_alike _ related

theorem afterOperand_alike (h : List.Forall₂ (Frame.Alike R) frames frames') (related : R t u)
    (role : t.role = u.role) (p : Pending) (last : Expr) :
    (ctx.afterOperand frames p last t).Alike R (ctx.afterOperand frames' p last u) := by
  have empty : frames = [] ↔ frames' = [] := by cases h <;> simp
  simp only [afterOperand, empty]
  split
  · exact .done last
  · rcases begin?_alike ctx h related role (p.push last) with
      ⟨none, none'⟩ | ⟨_, _, begun, begun', alike⟩
    · simp only [none, none', role]
      split
      · exact shift_alike h _
      · exact close_alike h related role _
    · simp only [begun, begun']
      exact alike

theorem key_alike (h : List.Forall₂ (Frame.Alike R) frames frames') (related : R t u)
    (role : t.role = u.role) (fresh : Bool) (ms : List (String × Expr)) (outer : Pending) :
    (key frames fresh ms outer t).Alike R (key frames' fresh ms outer u) := by
  unfold key
  rw [role]
  split
  · exact shift_alike h _
  · exact shift_alike h _
  · exact fail_alike _ related
  · exact shift_alike h _
  · exact fail_alike _ related

theorem step_alike {s s' : ReadState} (h : s.Alike R s') (related : R t u)
    (role : t.role = u.role) (value : t.value = u.value) :
    (ctx.step s t).Alike R (ctx.step s' u) := by
  cases h with
  | intro focus h =>
    cases focus with
    | start fresh => exact start_alike h related role value fresh
    | stage p =>
      rcases begin?_alike ctx h related role p with ⟨none, none'⟩ | ⟨_, _, begun, begun', alike⟩
      · simp only [step, none, none']
        exact fail_alike _ related
      · simp only [step, begun, begun']
        exact alike
    | path p segments =>
      simp only [step, role]
      split
      · exact shift_alike h _
      · exact afterOperand_alike h related role p _
    | segment p segments =>
      simp only [step, role]
      split
      · exact shift_alike h _
      · exact fail_alike _ related
      · exact fail_alike _ related
    | operand p last => exact afterOperand_alike h related role p last
    | key fresh ms outer => exact key_alike h related role fresh ms outer
    | colon ms k outer =>
      simp only [step, role]
      split
      · exact shift_alike (.cons (.object ms k outer) h) _
      · exact fail_alike _ related

theorem atEnd_alike {s s' : ReadState} (h : s.Alike R s') :
    Outcomes (ReadReason.Alike R) Eq s.atEnd s'.atEnd := by
  have closed : ∀ {frames frames' : List Frame}, List.Forall₂ (Frame.Alike R) frames frames' →
      ∀ result, Outcomes (ReadReason.Alike R) Eq (Frame.atEnd frames result)
        (Frame.atEnd frames' result) := by
    intro frames frames' h result
    cases h with
    | nil => exact .ok rfl
    | cons first rest =>
      cases first with
      | group outer opener => exact .error (.unclosedGroup opener)
      | array => exact .error (.same _)
      | object => exact .error (.same _)
  cases h with
  | intro focus h =>
    cases focus with
    | path p segments => exact closed h _
    | operand p last => exact closed h _
    | start | stage | segment | key | colon => exact .error (.same _)

theorem run_alike (ctx : ReadContext) (same : ∀ t u, R t u → t.terminal = u.terminal)
    {s s' : ReadState} {ts us : List Token} (h : s.Alike R s') (tokens : List.Forall₂ R ts us)
    (l l' : Location) :
    Outcomes (ReadError.Alike R) (fun r r' => r.1 = r'.1 ∧ List.Forall₂ R r.2 r'.2)
      (ctx.run l s ts) (ctx.run l' s' us) := by
  induction tokens generalizing s s' with
  | nil =>
    have ends := atEnd_alike h
    unfold run
    generalize s.atEnd = outcome at ends
    generalize s'.atEnd = outcome' at ends
    cases ends with
    | ok eq => exact .ok ⟨eq, .nil⟩
    | error reason => exact .error (.atEnd l l' reason)
  | @cons t u ts us related rest ih =>
    have terminal := same t u related
    have moved : (ctx.step s t).Alike R (ctx.step s' u) :=
      step_alike h related (Token.role_congr terminal) (congrArg Terminal.value terminal)
    unfold run
    generalize ctx.step s t = next at moved
    generalize ctx.step s' u = next' at moved
    cases moved with
    | shift h => exact ih h
    | done result => exact .ok ⟨rfl, .cons related rest⟩
    | fail alike => exact .error alike

end ReadContext

variable {R}

theorem readTokens_alike (same : ∀ t u, R t u → t.terminal = u.terminal) {ts us : List Token}
    (tokens : List.Forall₂ R ts us) (limits : Limits) (source source' : String) :
    Outcomes (ReadError.Alike R) Eq (readTokens limits source ts)
      (readTokens limits source' us) := by
  cases tokens with
  | nil => exact .error (.atEnd _ _ (.same .emptyExpression))
  | @cons t u ts us first rest =>
    have outcome := ReadContext.run_alike { limits := limits } same (.intro (.start false) .nil)
      (.cons first rest) (endOfInput source (t :: ts)) (endOfInput source' (u :: us))
    simp only [readTokens, List.isEmpty_cons, Bool.false_eq_true, if_false, ReadContext.read]
    generalize ReadContext.run _ _ _ (t :: ts) = result at outcome
    generalize ReadContext.run _ _ _ (u :: us) = result' at outcome
    cases outcome with
    | @ok r r' both =>
      obtain ⟨e, left⟩ := r
      obtain ⟨e', left'⟩ := r'
      obtain ⟨rfl, left⟩ := both
      cases left with
      | nil => exact .ok rfl
      | @cons t u _ _ related _ =>
        have value : t.value = u.value := congrArg Terminal.value (same t u related)
        simp only [value]
        exact .error (.atToken (.same _) related)
    | error e => exact .error e

theorem ReadError.Alike.reason {e e' : ReadError} (h : e.Alike R e') :
    e.reason.Alike R e'.reason := by
  cases h with
  | atToken reason => exact reason
  | atEnd _ _ reason => exact reason

theorem readBelowCeiling_alike (same : ∀ t u, R t u → t.terminal = u.terminal)
    {ts us : List Token} (tokens : List.Forall₂ R ts us) (limits ceiling : Limits)
    (source source' : String) :
    Outcomes (ReadError.Alike R) Eq (readBelowCeiling limits source ts ceiling)
      (readBelowCeiling limits source' us ceiling) := by
  have alike := readTokens_alike same tokens ceiling source source'
  unfold readBelowCeiling
  split
  · exact readTokens_alike same tokens limits source source'
  · generalize readTokens ceiling source ts = outcome at alike
    generalize readTokens ceiling source' us = outcome' at alike
    cases alike with
    | ok eq => exact .ok eq
    | @error e e' alike =>
      have reasons := alike.reason
      obtain ⟨reason, location, token⟩ := e
      obtain ⟨reason', location', token'⟩ := e'
      cases reasons with
      | unclosedGroup => exact .error alike
      | same =>
        cases reason with
        | tooDeep limit =>
          cases tokens with
          | nil => exact .error alike
          | cons first _ => exact .error (.atToken (.same .beyondCeiling) first)
        | _ => exact .error alike

end PipeExpr
