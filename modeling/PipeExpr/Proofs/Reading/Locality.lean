import PipeExpr.Proofs.Reading.NestingLimit
import PipeExpr.Proofs.Reading.Relabelling
import PipeExpr.Proofs.Reading.Safety

set_option autoImplicit false

namespace PipeExpr

/-- Nothing but places and texts tells the tokens apart. -/
def Token.Agrees (t u : Token) : Prop :=
  t.terminal = u.terminal

namespace ReadContext

variable {ctx ctx' : ReadContext} {s s' next : ReadState} {e : Expr} {l l' : Location}
  {ts us before before' rest rest' : List Token} {t? u? : Option Token}

theorem step_agrees (ctx : ReadContext) (alike : s.Alike Token.Agrees s') {t u : Token}
    (agrees : t.Agrees u) : (ctx.step s t).Alike Token.Agrees (ctx.step s' u) :=
  step_alike alike agrees (Token.role_congr agrees) (congrArg Terminal.value agrees)

theorem EndsAt.agrees (ends : ctx.EndsAt s e t?) (alike : s.Alike Token.Agrees s')
    (agree : t?.map Token.terminal = u?.map Token.terminal) : ctx.EndsAt s' e u? := by
  cases t? with
  | none =>
    obtain rfl := Option.map_eq_none_iff.mp agree.symm
    have same := atEnd_alike alike
    rw [EndsAt] at ends ⊢
    rw [ends] at same
    generalize s'.atEnd = outcome at same
    cases same with
    | ok eq => rw [eq]
  | some t =>
    obtain ⟨u, rfl, agrees⟩ := Option.map_eq_some_iff.mp agree.symm
    have same := step_agrees ctx alike agrees.symm
    rw [EndsAt] at ends ⊢
    rw [ends] at same
    generalize ctx.step s' u = outcome at same
    cases same with
    | done => rfl

theorem EndsAt.widened (ends : ctx.EndsAt s e t?) (widened : ctx.Widened ctx') :
    ctx'.EndsAt s e t? := by
  cases t? with
  | none => exact ends
  | some t =>
    rw [EndsAt] at ends ⊢
    rcases step_eq_or_tooDeep widened s t with same | deep
    · rw [← same, ends]
    · rw [ends] at deep
      cases deep

end ReadContext

variable {ctx ctx' : ReadContext} {source source' : String} {tokens tokens' : List Token}
  {p p' q : Nat} {e : Expr}

end PipeExpr
