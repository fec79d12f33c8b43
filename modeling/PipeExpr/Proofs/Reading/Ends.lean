import PipeExpr.Proofs.Reading.Shifts

set_option autoImplicit false

namespace PipeExpr
open Terminal (symbol)

/-- The error is at one of the tokens, or at the end of the input. -/
inductive ReadError.Placed (tokens : List Token) (inputEnd : Location) : ReadError → Prop
  | atToken {t : Token} (reason : ReadReason) :
      t ∈ tokens → Placed tokens inputEnd (.atToken reason t)
  | atEnd (reason : ReadReason) : Placed tokens inputEnd (.atEnd reason inputEnd)

/-- A structural token or a name that is an integer of more digits than can be written. -/
def Token.Overlong (t : Token) : Prop :=
  t.kind ≠ .value ∧ ∃ n : Int, t.value = .int n ∧ 10 ^ maxIntegerDigits ≤ n.natAbs

theorem Token.overlong_of_unwritten {t : Token} (kind : t.kind ≠ .value)
    (unwritten : t.value.text? = none) : t.Overlong :=
  ⟨kind, Scalar.text?_eq_none_iff.mp unwritten⟩

namespace ReadContext

/-- The token can be refused for the reason. If the reason cannot be written, then the limit is too
    long for it or the token is. -/
structure Refuses (ctx : ReadContext) (t : Token) (reason : ReadReason) : Prop where
  ne_emptyGroup : reason ≠ .emptyGroup
  untold : reason.message? = none → 10 ^ maxIntegerDigits ≤ ctx.limits.depth ∨ t.Overlong

variable {ctx : ReadContext} {frames : List Frame} {p : Pending} {last result : Expr}
  {s s' : ReadState} {t : Token} {e : ReadError} {ts rest : List Token} {l : Location}

theorem nest_ne_done {inside : ReadState} : ctx.nest frames t inside ≠ .done result := by
  unfold nest
  split <;> nofun

theorem begin?_ne_done : ctx.begin? frames p t ≠ some (.done result) := by
  intro h
  unfold begin? at h
  split at h
  case h_4 | h_5 | h_6 => exact nest_ne_done (Option.some.inj h)
  all_goals cases h

theorem start_ne_done {fresh : Bool} : ctx.start frames fresh t ≠ .done result := by
  intro h
  unfold start at h
  split at h
  case h_1 next began =>
    subst h
    exact begin?_ne_done began
  case h_2 => split at h <;> cases h

theorem key_ne_done {fresh : Bool} {ms : List (String × Expr)} {outer : Pending} :
    key frames fresh ms outer t ≠ .done result := by
  unfold key
  split <;> nofun

theorem close_done {complete : Expr} (h : close frames complete t = .done result) :
    frames = [] ∧ complete = result := by
  unfold close at h
  split at h
  case h_1 =>
    cases h
    exact ⟨rfl, rfl⟩
  all_goals split at h <;> cases h

theorem Settled.done_of_afterOperand (settled : Settled frames p last s)
    (h : ctx.afterOperand frames p last t = .done result) :
    Settled [] p last s ∧ (result = last ∨ result = p.pipeline last) := by
  unfold afterOperand at h
  split at h
  case isTrue primary =>
    cases h
    obtain ⟨-, rfl⟩ := primary
    exact ⟨settled, .inl rfl⟩
  case isFalse =>
    split at h
    case h_1 next began =>
      subst h
      exact absurd began begin?_ne_done
    case h_2 =>
      split at h
      case isTrue => cases h
      case isFalse =>
        obtain ⟨rfl, rfl⟩ := close_done h
        exact ⟨settled, .inr rfl⟩

theorem step_done (h : ctx.step s t = .done result) :
    ∃ p last, Settled [] p last s ∧ (result = last ∨ result = p.pipeline last) := by
  obtain ⟨frames, focus⟩ := s
  cases focus with
  | start fresh => exact absurd h start_ne_done
  | stage p =>
    simp only [step] at h
    split at h
    case h_1 next began =>
      subst h
      exact absurd began begin?_ne_done
    case h_2 => cases h
  | path p segments =>
    simp only [step] at h
    split at h
    case isTrue => cases h
    case isFalse => exact ⟨p, _, (Settled.path segments rfl).done_of_afterOperand h⟩
  | segment p segments =>
    simp only [step] at h
    split at h <;> cases h
  | operand p last => exact ⟨p, last, Settled.operand.done_of_afterOperand h⟩
  | key fresh ms outer => exact absurd h key_ne_done
  | colon ms k outer =>
    simp only [step] at h
    split at h <;> cases h

theorem kind_ne_value_of_step_done (rule : ctx.rule ≠ .primary) (h : ctx.step s t = .done result) :
    t.kind ≠ .value := by
  intro kind
  obtain ⟨p, last, settled, -⟩ := step_done h
  have value : t.terminal = ⟨.value, t.value⟩ := by rw [Token.terminal, kind]
  have moved : ctx.Shift t s _ := .value (.next settled fun primary => rule primary.1) value
  rw [moved.step_eq] at h
  cases h

theorem kind_ne_value_of_begin? (h : ctx.begin? frames p t = none) : t.kind ≠ .value := by
  intro kind
  have role : t.role = .value t.value := Token.role_eq_value_iff.mpr (by rw [Token.terminal, kind])
  rw [begin?, role] at h
  cases h

theorem refuses_of_message {reason : ReadReason} {message : String} (ne : reason ≠ .emptyGroup)
    (told : reason.message? = some message) : ctx.Refuses t reason :=
  ⟨ne, fun untold => absurd (told.symm.trans untold) (Option.some_ne_none message)⟩

theorem refuses_unexpectedToken (kind : t.kind ≠ .value) :
    ctx.Refuses t (.unexpectedToken t.value) := by
  refine ⟨nofun, fun untold => .inr (Token.overlong_of_unwritten kind ?_)⟩
  exact Option.map_eq_none_iff.mp untold

theorem refuses_overlongName (overlong : t.role = .overlong) : ctx.Refuses t .overlongName := by
  obtain ⟨v, name, unwritten⟩ := Token.role_eq_overlong_iff.mp overlong
  have kind : t.kind = .reference := congrArg Terminal.kind name
  have value : t.value = v := congrArg Terminal.value name
  refine ⟨nofun, fun _ => .inr (Token.overlong_of_unwritten (by rw [kind]; nofun) ?_)⟩
  rw [value, unwritten]

theorem nest_fail {inside : ReadState} (h : ctx.nest frames t inside = .fail e) :
    ∃ reason, e = .atToken reason t ∧ ctx.Refuses t reason := by
  unfold nest at h
  split at h
  · cases h
    refine ⟨_, rfl, nofun, fun untold => .inl ?_⟩
    exact Text.numeral?_eq_none_iff.mp (Option.map_eq_none_iff.mp untold)
  · cases h

theorem begin?_fail (h : ctx.begin? frames p t = some (.fail e)) :
    ∃ reason, e = .atToken reason t ∧ ctx.Refuses t reason := by
  unfold begin? at h
  split at h
  case h_3 overlong =>
    cases h
    exact ⟨_, rfl, refuses_overlongName overlong⟩
  case h_4 | h_5 | h_6 => exact nest_fail (Option.some.inj h)
  all_goals cases h

theorem close_fail (h : close frames result t = .fail e) :
    ∃ reason, e = .atToken reason t ∧ ctx.Refuses t reason := by
  unfold close at h
  split at h
  case h_1 => cases h
  all_goals
    split at h <;> cases h
    exact ⟨_, rfl, refuses_of_message (by simp) rfl⟩

theorem afterOperand_fail (h : ctx.afterOperand frames p last t = .fail e) :
    ∃ reason, e = .atToken reason t ∧ ctx.Refuses t reason := by
  unfold afterOperand at h
  split at h
  case isTrue => cases h
  case isFalse =>
    split at h
    case h_1 next began =>
      subst h
      exact begin?_fail began
    case h_2 =>
      split at h
      case isTrue => cases h
      case isFalse => exact close_fail h

theorem start_fail {fresh : Bool} (h : ctx.start frames fresh t = .fail e) :
    (∃ reason, e = .atToken reason t ∧ ctx.Refuses t reason) ∨
      (t.terminal = symbol ")" ∧ fresh = true ∧ ∃ opener outer behind,
        frames = .group opener outer :: behind ∧ e = .atToken .emptyGroup opener) := by
  unfold start at h
  split at h
  case h_1 next began =>
    subst h
    exact .inl (begin?_fail began)
  case h_2 nothing =>
    split at h
    case h_1 opener outer behind role =>
      cases h
      exact .inr ⟨Token.role_eq_symbol_iff.mp role, rfl, opener, outer, behind, rfl, rfl⟩
    case h_2 => cases h
    case h_3 =>
      cases h
      exact .inl ⟨_, rfl, refuses_of_message (by simp) rfl⟩
    case h_4 =>
      cases h
      exact .inl ⟨_, rfl, refuses_unexpectedToken (kind_ne_value_of_begin? nothing)⟩

theorem key_fail {fresh : Bool} {ms : List (String × Expr)} {outer : Pending}
    (h : key frames fresh ms outer t = .fail e) :
    ∃ reason, e = .atToken reason t ∧ ctx.Refuses t reason := by
  unfold key at h
  split at h <;> cases h
  case h_3 overlong => exact ⟨_, rfl, refuses_overlongName overlong⟩
  case h_5 => exact ⟨_, rfl, refuses_of_message (by simp) rfl⟩

/-- A step fails at its token, but for a closing parenthesis right behind the opening one. -/
theorem step_fail (h : ctx.step s t = .fail e) :
    (∃ reason, e = .atToken reason t ∧ ctx.Refuses t reason) ∨
      (t.terminal = symbol ")" ∧ ∃ opener outer frames,
        s = ⟨.group opener outer :: frames, .start true⟩ ∧ e = .atToken .emptyGroup opener) := by
  obtain ⟨frames, focus⟩ := s
  cases focus with
  | start fresh =>
    rcases start_fail h with refused | ⟨role, rfl, opener, outer, behind, rfl, rfl⟩
    · exact .inl refused
    · exact .inr ⟨role, opener, outer, behind, rfl, rfl⟩
  | stage p =>
    simp only [step] at h
    split at h
    case h_1 next began =>
      subst h
      exact .inl (begin?_fail began)
    case h_2 =>
      cases h
      exact .inl ⟨_, rfl, refuses_of_message (by simp) rfl⟩
  | path p segments =>
    simp only [step] at h
    split at h
    case isTrue => cases h
    case isFalse => exact .inl (afterOperand_fail h)
  | segment p segments =>
    simp only [step] at h
    split at h <;> cases h
    case h_2 overlong => exact .inl ⟨_, rfl, refuses_overlongName overlong⟩
    case h_3 => exact .inl ⟨_, rfl, refuses_of_message (by simp) rfl⟩
  | operand p last => exact .inl (afterOperand_fail h)
  | key fresh ms outer => exact .inl (key_fail h)
  | colon ms k outer =>
    simp only [step] at h
    split at h <;> cases h
    exact .inl ⟨_, rfl, refuses_of_message (by simp) rfl⟩

theorem concat_of_shifts_group {before : List Token} {opener : Token} {outer : Pending}
    (h : ctx.shifts {} before = some ⟨.group opener outer :: frames, .start true⟩) :
    ∃ earlier, before = earlier ++ [opener] ∧ opener.terminal = symbol "(" := by
  induction before using List.reverseRecOn with
  | nil => cases h
  | append_singleton earlier t _ =>
    obtain ⟨s, -, moved⟩ := shifts_concat_iff.mp h
    cases moved with
    | openGroup due eq allowed => exact ⟨earlier, rfl, eq⟩

theorem run_of_shifts (moved : ctx.shifts s ts = some s') (l : Location) :
    ctx.run l s ts = ctx.run l s' [] := by
  have all := run_append moved l []
  rw [List.append_nil] at all
  exact all

def EndsAt (ctx : ReadContext) (s : ReadState) (result : Expr) : Option Token → Prop
  | none => s.atEnd = .ok result
  | some t => ctx.step s t = .done result

/-- A rule is read by taking tokens in up to one at which it ends. -/
theorem run_eq_ok_iff : ctx.run l s ts = .ok (result, rest) ↔
    ∃ before s', ts = before ++ rest ∧ ctx.shifts s before = some s' ∧
      ctx.EndsAt s' result rest.head? := by
  constructor
  · intro h
    rcases run_cases ctx s ts with
      ⟨s', moved⟩ | ⟨before, t, after, s', rfl, moved, ⟨complete, stop⟩ | ⟨error, stop⟩⟩
    · rw [run_of_shifts moved, run] at h
      split at h <;> cases h
      case h_1 ends => exact ⟨ts, s', (List.append_nil ts).symm, moved, ends⟩
    · rw [run_append moved, run, stop] at h
      cases h
      exact ⟨before, s', rfl, moved, stop⟩
    · rw [run_append moved, run, stop] at h
      cases h
  · rintro ⟨before, s', rfl, moved, ends⟩
    rw [run_append moved]
    cases rest with
    | nil =>
      rw [List.head?_nil, EndsAt] at ends
      rw [run, ends]
    | cons t after =>
      rw [List.head?_cons, EndsAt] at ends
      rw [run, ends]

/-- A rule that is read takes in the tokens before `rest` and ends right behind an operand. -/
theorem run_ok (h : ctx.run l s ts = .ok (result, rest)) :
    ∃ before s' p last, ts = before ++ rest ∧ ctx.shifts s before = some s' ∧
      Settled [] p last s' ∧ (result = last ∨ result = p.pipeline last) := by
  obtain ⟨before, s', split, moved, ends⟩ := run_eq_ok_iff.mp h
  cases rest with
  | nil =>
    obtain ⟨p, last, settled, eq⟩ := atEnd_eq_ok_iff.mp ends
    exact ⟨before, s', p, last, split, moved, settled, .inr eq.symm⟩
  | cons t after =>
    obtain ⟨p, last, settled, eq⟩ := step_done ends
    exact ⟨before, s', p, last, split, moved, settled, eq⟩

/-- A run that fails takes in all of the tokens and fails at the end, or it fails at a token. -/
theorem run_error (h : ctx.run l s ts = .error e) :
    (∃ s' reason, ctx.shifts s ts = some s' ∧ s'.atEnd = .error reason ∧ e = .atEnd reason l) ∨
      ∃ before t after s', ts = before ++ t :: after ∧ ctx.shifts s before = some s' ∧
        ctx.step s' t = .fail e := by
  rcases run_cases ctx s ts with
    ⟨s', moved⟩ | ⟨before, t, after, s', rfl, moved, ⟨complete, stop⟩ | ⟨error, stop⟩⟩
  · rw [run_of_shifts moved, run] at h
    split at h <;> cases h
    case h_2 reason ends => exact .inl ⟨s', reason, moved, ends, rfl⟩
  · rw [run_append moved, run, stop] at h
    cases h
  · rw [run_append moved, run, stop] at h
    cases h
    exact .inr ⟨before, t, after, s', rfl, moved, stop⟩

theorem read_error (h : ctx.read l ts = .error e) : e.Placed ts l := by
  rcases run_error h with ⟨s', reason, -, -, rfl⟩ | ⟨before, t, after, s', rfl, moved, stop⟩
  · exact .atEnd reason
  · rcases step_fail stop with ⟨reason, rfl, -⟩ | ⟨-, opener, outer, frames, rfl, rfl⟩
    · exact .atToken reason (by simp)
    · obtain ⟨earlier, rfl, -⟩ := concat_of_shifts_group moved
      exact .atToken .emptyGroup (by simp)

end ReadContext

variable {limits : Limits} {source : String} {tokens : List Token} {e : ReadError}

theorem readTokens_error (h : readTokens limits source tokens = .error e) :
    e.Placed tokens (endOfInput source tokens) := by
  simp only [readTokens] at h
  split at h
  case isTrue =>
    cases h
    exact .atEnd .emptyExpression
  case isFalse =>
    split at h
    case h_1 => cases h
    case h_2 result t after outcome =>
      cases h
      obtain ⟨before, s', p, last, rfl, -⟩ := ReadContext.run_ok outcome
      exact .atToken _ (by simp)
    case h_3 error outcome =>
      cases h
      exact ReadContext.read_error outcome

theorem readBelowCeiling_error {ceiling : Limits}
    (h : readBelowCeiling limits source tokens ceiling = .error e) :
    e.Placed tokens (endOfInput source tokens) := by
  unfold readBelowCeiling at h
  split at h
  case isTrue => exact readTokens_error h
  case isFalse =>
    split at h
    case h_1 outcome =>
      split at h
      case h_1 =>
        cases h
        exact .atToken .beyondCeiling List.mem_cons_self
      case h_2 =>
        cases h
        exact readTokens_error outcome
    case h_2 => exact readTokens_error h

end PipeExpr
