import PipeExpr.Proofs.Reading.Terminals
import PipeExpr.Reading.Step

/-!
# What a step can do

Every way in which a token can be taken in, one constructor each, said in terms of terminals. The
relation is the step itself: `shift_iff`.
-/

set_option autoImplicit false

namespace PipeExpr.ReadContext
open Terminal (symbol)

/-- The operand `last` of `p` has just ended. A reference may still turn out to be longer. -/
inductive Settled (frames : List Frame) (p : Pending) (last : Expr) : ReadState → Prop
  | operand : Settled frames p last ⟨frames, .operand p last⟩
  | path (segments : List String) :
      last = .reference segments.reverse → Settled frames p last ⟨frames, .path p segments⟩

/-- An operand of `p` may begin. -/
inductive Due (ctx : ReadContext) : List Frame → Pending → ReadState → Prop
  | start (frames : List Frame) (fresh : Bool) : Due ctx frames {} ⟨frames, .start fresh⟩
  | stage (frames : List Frame) (p : Pending) : Due ctx frames p ⟨frames, .stage p⟩
  | next {frames : List Frame} {p : Pending} {last : Expr} {s : ReadState} :
      Settled frames p last s → ¬(ctx.rule = .primary ∧ frames = []) →
        Due ctx frames (p.push last) s

inductive Shift (ctx : ReadContext) (t : Token) : ReadState → ReadState → Prop
  | value {s : ReadState} {frames : List Frame} {p : Pending} {v : Scalar} :
      ctx.Due frames p s → t.terminal = ⟨.value, v⟩ →
        Shift ctx t s ⟨frames, .operand p (.ofScalar v)⟩
  | name {s : ReadState} {frames : List Frame} {p : Pending} {v : Scalar} {name : String} :
      ctx.Due frames p s → t.terminal = ⟨.reference, v⟩ → v.text? = some name →
        Shift ctx t s ⟨frames, .path p [name]⟩
  | openGroup {s : ReadState} {frames : List Frame} {p : Pending} :
      ctx.Due frames p s → t.terminal = symbol "(" →
        ctx.depth + frames.length < ctx.limits.depth →
          Shift ctx t s ⟨.group t p :: frames, .start true⟩
  | openArray {s : ReadState} {frames : List Frame} {p : Pending} :
      ctx.Due frames p s → t.terminal = symbol "[" →
        ctx.depth + frames.length < ctx.limits.depth →
          Shift ctx t s ⟨.array [] p :: frames, .start true⟩
  | openObject {s : ReadState} {frames : List Frame} {p : Pending} :
      ctx.Due frames p s → t.terminal = symbol "\x7b" →
        ctx.depth + frames.length < ctx.limits.depth →
          Shift ctx t s ⟨frames, .key true [] p⟩
  | emptyArray {frames : List Frame} {elements : List Expr} {outer : Pending} :
      t.terminal = symbol "]" →
        Shift ctx t ⟨.array elements outer :: frames, .start true⟩
          ⟨frames, .operand outer (.array [])⟩
  | emptyObject {frames : List Frame} {ms : List (String × Expr)} {outer : Pending} :
      t.terminal = symbol "\x7d" →
        Shift ctx t ⟨frames, .key true ms outer⟩ ⟨frames, .operand outer (.object [])⟩
  | dot {frames : List Frame} {p : Pending} {segments : List String} :
      t.terminal = symbol "." →
        Shift ctx t ⟨frames, .path p segments⟩ ⟨frames, .segment p segments⟩
  | segment {frames : List Frame} {p : Pending} {segments : List String} {v : Scalar}
      {name : String} :
      t.terminal = ⟨.reference, v⟩ → v.text? = some name → v ≠ .string rootMarker →
        Shift ctx t ⟨frames, .segment p segments⟩ ⟨frames, .path p (name :: segments)⟩
  | pipe {s : ReadState} {frames : List Frame} {p : Pending} {last : Expr} :
      Settled frames p last s → t.terminal = symbol "|" →
        ¬(ctx.rule = .primary ∧ frames = []) → ¬(ctx.rule = .application ∧ frames = []) →
          Shift ctx t s ⟨frames, .stage (p.endStage last)⟩
  | closeGroup {s : ReadState} {frames : List Frame} {opener : Token} {p outer : Pending}
      {last : Expr} :
      Settled (.group opener outer :: frames) p last s → t.terminal = symbol ")" →
        Shift ctx t s ⟨frames, .operand outer (p.pipeline last)⟩
  | nextElement {s : ReadState} {frames : List Frame} {elements : List Expr} {p outer : Pending}
      {last : Expr} :
      Settled (.array elements outer :: frames) p last s → t.terminal = symbol "," →
        Shift ctx t s ⟨.array (p.pipeline last :: elements) outer :: frames, .start false⟩
  | closeArray {s : ReadState} {frames : List Frame} {elements : List Expr} {p outer : Pending}
      {last : Expr} :
      Settled (.array elements outer :: frames) p last s → t.terminal = symbol "]" →
        Shift ctx t s ⟨frames, .operand outer (.array (p.pipeline last :: elements).reverse)⟩
  | nextEntry {s : ReadState} {frames : List Frame} {ms : List (String × Expr)} {key : String}
      {p outer : Pending} {last : Expr} :
      Settled (.object ms key outer :: frames) p last s → t.terminal = symbol "," →
        Shift ctx t s ⟨frames, .key false (putMember ms key (p.pipeline last)) outer⟩
  | closeObject {s : ReadState} {frames : List Frame} {ms : List (String × Expr)} {key : String}
      {p outer : Pending} {last : Expr} :
      Settled (.object ms key outer :: frames) p last s → t.terminal = symbol "\x7d" →
        Shift ctx t s ⟨frames, .operand outer (.object (putMember ms key (p.pipeline last)))⟩
  | key {frames : List Frame} {fresh : Bool} {ms : List (String × Expr)} {outer : Pending}
      {key : String} :
      Grammar.Key t.terminal key → t.role ≠ .overlong →
        Shift ctx t ⟨frames, .key fresh ms outer⟩ ⟨frames, .colon ms key outer⟩
  | colon {frames : List Frame} {ms : List (String × Expr)} {key : String} {outer : Pending} :
      t.terminal = symbol ":" →
        Shift ctx t ⟨frames, .colon ms key outer⟩
          ⟨.object ms key outer :: frames, .start false⟩

variable {ctx : ReadContext} {frames : List Frame} {p : Pending} {last : Expr}
  {s s' : ReadState} {t : Token}

theorem begin?_eq_none_of_symbol {b : Symbol} (h : t.role = .symbol b)
    (hb : b ≠ .openGroup ∧ b ≠ .openArray ∧ b ≠ .openObject) : ctx.begin? frames p t = none := by
  rw [begin?, h]
  cases b <;> simp_all

/-- Only a dot tells a reference from another operand. -/
theorem step_settled (settled : Settled frames p last s) (h : t.role ≠ .symbol .dot) :
    ctx.step s t = ctx.afterOperand frames p last t := by
  cases settled with
  | operand => rfl
  | path segments eq => simp only [step, if_neg h, eq]

theorem atEnd_settled (settled : Settled frames p last s) :
    s.atEnd = Frame.atEnd frames (p.pipeline last) := by
  cases settled with
  | operand => rfl
  | path segments eq => rw [eq]; rfl

theorem step_due {next : ReadStep} (due : ctx.Due frames p s)
    (h : ctx.begin? frames p t = some next) : ctx.step s t = next := by
  cases due with
  | start fresh => simp only [step, start, h]
  | stage => simp only [step, h]
  | next settled goesOn =>
    have noDot : t.role ≠ .symbol .dot := by
      intro dot
      rw [begin?_eq_none_of_symbol dot (by simp)] at h
      cases h
    rw [step_settled settled noDot, afterOperand, if_neg goesOn, h]

theorem step_close (settled : Settled frames p last s) (inside : frames ≠ []) {b : Symbol}
    (h : t.role = .symbol b)
    (hb : b = .closeGroup ∨ b = .closeArray ∨ b = .closeObject ∨ b = .comma) :
    ctx.step s t = close frames (p.pipeline last) t := by
  have noDot : t.role ≠ .symbol .dot := by
    rcases hb with rfl | rfl | rfl | rfl <;> simp [h]
  have noPipe : t.role ≠ .symbol .pipe := by
    rcases hb with rfl | rfl | rfl | rfl <;> simp [h]
  have noStart : ctx.begin? frames (p.push last) t = none :=
    begin?_eq_none_of_symbol h (by rcases hb with rfl | rfl | rfl | rfl <;> simp)
  rw [step_settled settled noDot, afterOperand, if_neg (by simp [inside]), noStart]
  simp only [noPipe, false_and, if_false]

theorem nest_of_lt {opener : Token} {inside : ReadState}
    (h : ctx.depth + frames.length < ctx.limits.depth) :
    ctx.nest frames opener inside = .shift inside := by
  rw [nest, if_neg (by omega)]

theorem Shift.step_eq (h : Shift ctx t s s') : ctx.step s t = .shift s' := by
  cases h with
  | value due eq => exact step_due due (by rw [begin?, Token.role_eq_value_iff.mpr eq])
  | name due eq written =>
    exact step_due due (by rw [begin?, Token.role_eq_name_iff.mpr ⟨_, eq, written, rfl⟩])
  | openGroup due eq allowed =>
    have role : t.role = .symbol .openGroup := Token.role_eq_symbol_iff.mpr eq
    exact step_due due (by rw [begin?, role]; exact congrArg some (nest_of_lt allowed))
  | openArray due eq allowed =>
    have role : t.role = .symbol .openArray := Token.role_eq_symbol_iff.mpr eq
    exact step_due due (by rw [begin?, role]; exact congrArg some (nest_of_lt allowed))
  | openObject due eq allowed =>
    have role : t.role = .symbol .openObject := Token.role_eq_symbol_iff.mpr eq
    exact step_due due (by rw [begin?, role]; exact congrArg some (nest_of_lt allowed))
  | emptyArray eq =>
    have role : t.role = .symbol .closeArray := Token.role_eq_symbol_iff.mpr eq
    simp only [step, start, begin?_eq_none_of_symbol role (by simp), role]
  | emptyObject eq =>
    have role : t.role = .symbol .closeObject := Token.role_eq_symbol_iff.mpr eq
    simp only [step, ReadContext.key, role]
  | dot eq =>
    have role : t.role = .symbol .dot := Token.role_eq_symbol_iff.mpr eq
    simp only [step, role, if_true]
  | segment eq written notRoot =>
    have role := Token.role_eq_name_iff.mpr ⟨_, eq, written, (decide_eq_true notRoot).symm⟩
    simp only [step, role]
  | pipe settled eq notPrimary notApplication =>
    have role : t.role = .symbol .pipe := Token.role_eq_symbol_iff.mpr eq
    rw [step_settled settled (by simp [role]), afterOperand, if_neg notPrimary,
      begin?_eq_none_of_symbol role (by simp)]
    simp only [role, true_and, if_pos notApplication]
  | closeGroup settled eq =>
    have role : t.role = .symbol .closeGroup := Token.role_eq_symbol_iff.mpr eq
    rw [step_close settled (by simp) role (by simp)]
    simp only [close, role]
  | nextElement settled eq =>
    have role : t.role = .symbol .comma := Token.role_eq_symbol_iff.mpr eq
    rw [step_close settled (by simp) role (by simp)]
    simp only [close, role]
  | closeArray settled eq =>
    have role : t.role = .symbol .closeArray := Token.role_eq_symbol_iff.mpr eq
    rw [step_close settled (by simp) role (by simp)]
    simp only [close, role]
  | nextEntry settled eq =>
    have role : t.role = .symbol .comma := Token.role_eq_symbol_iff.mpr eq
    rw [step_close settled (by simp) role (by simp)]
    simp only [close, role]
  | closeObject settled eq =>
    have role : t.role = .symbol .closeObject := Token.role_eq_symbol_iff.mpr eq
    rw [step_close settled (by simp) role (by simp)]
    simp only [close, role]
  | key h writable =>
    generalize eq : t.terminal = terminal at h
    cases h with
    | text k => simp only [step, ReadContext.key, Token.role_eq_value_iff.mpr eq]
    | name v notRoot =>
      have written := Token.text?_of_role_ne_overlong eq writable
      have role := Token.role_eq_name_iff.mpr ⟨_, eq, written, (decide_eq_true notRoot).symm⟩
      simp only [step, ReadContext.key, role]
  | colon eq =>
    have role : t.role = .symbol .colon := Token.role_eq_symbol_iff.mpr eq
    simp only [step, role]

theorem lt_of_nest {opener : Token} {inside : ReadState}
    (h : ctx.nest frames opener inside = .shift s') :
    ctx.depth + frames.length < ctx.limits.depth ∧ inside = s' := by
  unfold nest at h
  split at h
  · cases h
  · cases h
    exact ⟨by omega, rfl⟩

theorem Due.shift (due : ctx.Due frames p s) (h : ctx.begin? frames p t = some (.shift s')) :
    Shift ctx t s s' := by
  unfold begin? at h
  split at h
  case h_1 v role =>
    cases h
    exact .value due (Token.role_eq_value_iff.mp role)
  case h_2 segment isSegment role =>
    obtain ⟨v, eq, written, -⟩ := Token.role_eq_name_iff.mp role
    cases h
    exact .name due eq written
  case h_3 => cases h
  case h_4 role =>
    obtain ⟨allowed, rfl⟩ := lt_of_nest (Option.some.inj h)
    exact .openGroup due (Token.role_eq_symbol_iff.mp role) allowed
  case h_5 role =>
    obtain ⟨allowed, rfl⟩ := lt_of_nest (Option.some.inj h)
    exact .openArray due (Token.role_eq_symbol_iff.mp role) allowed
  case h_6 role =>
    obtain ⟨allowed, rfl⟩ := lt_of_nest (Option.some.inj h)
    exact .openObject due (Token.role_eq_symbol_iff.mp role) allowed
  case h_7 => cases h

theorem Settled.shift_of_close (settled : Settled frames p last s)
    (h : close frames (p.pipeline last) t = .shift s') : Shift ctx t s s' := by
  cases frames with
  | nil => cases h
  | cons frame frames =>
    cases frame with
    | group opener outer =>
      simp only [close] at h
      split at h
      case h_1 role =>
        cases h
        exact .closeGroup settled (Token.role_eq_symbol_iff.mp role)
      case h_2 => cases h
    | array elements outer =>
      simp only [close] at h
      split at h
      case h_1 role =>
        cases h
        exact .nextElement settled (Token.role_eq_symbol_iff.mp role)
      case h_2 role =>
        cases h
        exact .closeArray settled (Token.role_eq_symbol_iff.mp role)
      case h_3 => cases h
    | object ms key outer =>
      simp only [close] at h
      split at h
      case h_1 role =>
        cases h
        exact .nextEntry settled (Token.role_eq_symbol_iff.mp role)
      case h_2 role =>
        cases h
        exact .closeObject settled (Token.role_eq_symbol_iff.mp role)
      case h_3 => cases h

theorem Settled.shift_of_afterOperand (settled : Settled frames p last s)
    (h : ctx.afterOperand frames p last t = .shift s') : Shift ctx t s s' := by
  unfold afterOperand at h
  split at h
  case isTrue => cases h
  case isFalse notPrimary =>
    split at h
    case h_1 next began =>
      subst h
      exact (Due.next settled notPrimary).shift began
    case h_2 =>
      split at h
      case isTrue pipe =>
        cases h
        exact .pipe settled (Token.role_eq_symbol_iff.mp pipe.1) notPrimary pipe.2
      case isFalse => exact settled.shift_of_close h

theorem shift_of_start {fresh : Bool} (h : ctx.start frames fresh t = .shift s') :
    Shift ctx t ⟨frames, .start fresh⟩ s' := by
  unfold start at h
  split at h
  case h_1 next began =>
    subst h
    exact (Due.start frames fresh).shift began
  case h_2 =>
    split at h
    case h_2 role _ =>
      cases h
      exact .emptyArray (Token.role_eq_symbol_iff.mp role)
    all_goals cases h

theorem shift_of_key {fresh : Bool} {ms : List (String × Expr)} {outer : Pending}
    (h : ReadContext.key frames fresh ms outer t = .shift s') :
    Shift ctx t ⟨frames, .key fresh ms outer⟩ s' := by
  unfold ReadContext.key at h
  split at h
  case h_1 k role =>
    cases h
    exact .key (Token.role_eq_value_iff.mp role ▸ .text k) (by simp [role])
  case h_2 k role =>
    obtain ⟨v, eq, written, notRoot⟩ := Token.role_eq_name_iff.mp role
    cases h
    rw [← Scalar.text_of_text? written] at role ⊢
    exact .key (eq ▸ .name v (of_decide_eq_true notRoot.symm)) (by simp [role])
  case h_4 role =>
    cases h
    exact .emptyObject (Token.role_eq_symbol_iff.mp role)
  case h_3 | h_5 => cases h

theorem shift_iff : ctx.step s t = .shift s' ↔ Shift ctx t s s' := by
  refine ⟨fun h => ?_, Shift.step_eq⟩
  obtain ⟨frames, focus⟩ := s
  cases focus with
  | start fresh => exact shift_of_start h
  | stage p =>
    simp only [step] at h
    split at h
    case h_1 next began =>
      subst h
      exact (Due.stage frames p).shift began
    case h_2 => cases h
  | path p segments =>
    simp only [step] at h
    split at h
    case isTrue role =>
      cases h
      exact .dot (Token.role_eq_symbol_iff.mp role)
    case isFalse => exact (Settled.path segments rfl).shift_of_afterOperand h
  | segment p segments =>
    simp only [step] at h
    split at h
    case h_1 name role =>
      obtain ⟨v, eq, written, notRoot⟩ := Token.role_eq_name_iff.mp role
      cases h
      exact .segment eq written (of_decide_eq_true notRoot.symm)
    case h_2 | h_3 => cases h
  | operand p last => exact Settled.operand.shift_of_afterOperand h
  | key fresh ms outer => exact shift_of_key h
  | colon ms k outer =>
    simp only [step] at h
    split at h
    case h_1 role =>
      cases h
      exact .colon (Token.role_eq_symbol_iff.mp role)
    case h_2 => cases h

end PipeExpr.ReadContext
