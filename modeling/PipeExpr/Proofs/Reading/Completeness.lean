import Mathlib.Data.List.Forall2
import PipeExpr.Proofs.Reading.Shifts

/-!
# Every derivation is read

The reading of a derivation's tokens, nonterminal by nonterminal: from any state in which an operand
may begin, with enough brackets still allowed, the tokens are taken in one after the other and leave
the derived tree behind.
-/

set_option autoImplicit false

namespace PipeExpr
open Terminal (symbol)

namespace Pending

theorem application_eq {p : Pending} {last function : Expr} {arguments : List Expr}
    (h : p.operands.reverse ++ [last] = function :: arguments) :
    p.application last = .applied function arguments := by
  unfold application
  cases hp : p.operands.reverse with
  | nil =>
    rw [hp] at h
    obtain ⟨rfl, rfl⟩ := List.cons.inj h
    rfl
  | cons first rest =>
    rw [hp] at h
    obtain ⟨rfl, rfl⟩ := List.cons.inj h
    simp [Expr.applied]

theorem pipeline_eq {p : Pending} {last first : Expr} {others : List Expr}
    (h : p.stages.reverse ++ [p.application last] = first :: others) :
    p.pipeline last = .piped first others := by
  unfold pipeline
  cases hp : p.stages.reverse with
  | nil =>
    rw [hp] at h
    obtain ⟨rfl, rfl⟩ := List.cons.inj h
    rfl
  | cons stage rest =>
    rw [hp] at h
    obtain ⟨rfl, rfl⟩ := List.cons.inj h
    simp [Expr.piped]

end Pending

namespace Grammar
open ReadContext

variable {ctx : ReadContext}

theorem split_append {tokens : List Token} {ts us : List Terminal}
    (h : List.Forall₂ Token.Reads tokens (ts ++ us)) :
    ∃ before after, tokens = before ++ after ∧ List.Forall₂ Token.Reads before ts ∧
      List.Forall₂ Token.Reads after us :=
  ⟨_, _, (List.take_append_drop ts.length tokens).symm, List.forall₂_take_append tokens ts us h,
    List.forall₂_drop_append tokens ts us h⟩

theorem split_symbol {tokens : List Token} {s : String} {ts : List Terminal}
    (h : List.Forall₂ Token.Reads tokens (symbol s :: ts)) :
    ∃ t rest, tokens = t :: rest ∧ t.terminal = symbol s ∧ List.Forall₂ Token.Reads rest ts := by
  obtain ⟨t, rest, first, others, rfl⟩ := List.forall₂_cons_right_iff.mp h
  exact ⟨t, rest, rfl, first.terminal_eq nofun, others⟩

theorem split_last {tokens : List Token} {s : String}
    (h : List.Forall₂ Token.Reads tokens [symbol s]) :
    ∃ t, tokens = [t] ∧ t.terminal = symbol s := by
  obtain ⟨t, rest, rfl, ht, others⟩ := split_symbol h
  obtain rfl := List.forall₂_nil_right_iff.mp others
  exact ⟨t, rfl, ht⟩

theorem split_bracketed {ts : List Terminal} {tokens : List Token} {opener closer : String}
    (h : List.Forall₂ Token.Reads tokens (symbol opener :: ts ++ [symbol closer])) :
    ∃ t inside u, tokens = t :: (inside ++ [u]) ∧ t.terminal = symbol opener ∧
      List.Forall₂ Token.Reads inside ts ∧ u.terminal = symbol closer := by
  obtain ⟨t, rest, rfl, ht, others⟩ := split_symbol h
  obtain ⟨inside, back, rfl, within, final⟩ := split_append others
  obtain ⟨u, rfl, hu⟩ := split_last final
  exact ⟨t, inside, u, rfl, ht, within, hu⟩

theorem split_separated {ts us : List Terminal} {tokens : List Token} {separator : String}
    (h : List.Forall₂ Token.Reads tokens (ts ++ symbol separator :: us)) :
    ∃ before t after, tokens = before ++ t :: after ∧ List.Forall₂ Token.Reads before ts ∧
      t.terminal = symbol separator ∧ List.Forall₂ Token.Reads after us := by
  obtain ⟨before, back, rfl, first, others⟩ := split_append h
  obtain ⟨t, after, rfl, ht, last⟩ := split_symbol others
  exact ⟨before, t, after, rfl, first, ht, last⟩

theorem shift_name {t : Token} {v : Scalar} {s : ReadState} {frames : List Frame} {p : Pending}
    (due : ctx.Due frames p s) (h : t.Reads ⟨.reference, v⟩) :
    ctx.Shift t s ⟨frames, .path p [v.text]⟩ := by
  cases h with
  | name _ role =>
    obtain ⟨w, eq, written, -⟩ := Token.role_eq_name_iff.mp role
    exact .name due eq written
  | other kind => exact absurd rfl kind

theorem shift_segment {t : Token} {v : Scalar} {frames : List Frame} {p : Pending}
    {segments : List String} (notRoot : v ≠ .string rootMarker) (h : t.Reads ⟨.reference, v⟩) :
    ctx.Shift t ⟨frames, .segment p segments⟩ ⟨frames, .path p (v.text :: segments)⟩ := by
  cases h with
  | name _ role =>
    rw [decide_eq_true notRoot] at role
    obtain ⟨w, eq, written, notRoot'⟩ := Token.role_eq_name_iff.mp role
    exact .segment eq written (of_decide_eq_true notRoot'.symm)
  | other kind => exact absurd rfl kind

theorem shift_key {t : Token} {a : Terminal} {k : String} {frames : List Frame} {fresh : Bool}
    {ms : List (String × Expr)} {outer : Pending} (key : Key a k) (h : t.Reads a) :
    ctx.Shift t ⟨frames, .key fresh ms outer⟩ ⟨frames, .colon ms k outer⟩ := by
  cases key with
  | text =>
    have eq := h.terminal_eq nofun
    have role := Token.role_eq_value_iff.mpr eq
    exact .key (eq ▸ .text k) (by simp [role])
  | name v notRoot =>
    cases h with
    | name _ role =>
      obtain ⟨w, eq, written, notRoot'⟩ := Token.role_eq_name_iff.mp role
      rw [decide_eq_true notRoot] at notRoot'
      rw [← Scalar.text_of_text? written]
      exact .key (eq ▸ .name w (of_decide_eq_true notRoot'.symm)) (by simp [role])
    | other kind => exact absurd rfl kind

theorem Segments.shifts {ts : List Terminal} {segments : List String} (h : Segments ts segments)
    {tokens : List Token} (reads : List.Forall₂ Token.Reads tokens ts) {frames : List Frame}
    {p : Pending} {before : List String} :
    ctx.shifts ⟨frames, .path p before⟩ tokens =
      some ⟨frames, .path p (segments.reverse ++ before)⟩ := by
  induction h generalizing tokens before with
  | nil =>
    obtain rfl := List.forall₂_nil_right_iff.mp reads
    rfl
  | cons v notRoot segments ih =>
    obtain ⟨dot, behind, rfl, hdot, behindDot⟩ := split_symbol reads
    obtain ⟨name, rest, named, others, rfl⟩ := List.forall₂_cons_right_iff.mp behindDot
    apply (Shift.dot hdot).cons
    apply (shift_segment notRoot named).cons
    rw [ih others, List.reverse_cons, List.append_assoc, List.singleton_append]

-- By induction on the derivation, for all frames and pending parts around it.
mutual

theorem Primary.shifts {d : Nat} {ts : List Terminal} {e : Expr} (h : Primary d ts e)
    (rule : ctx.rule = .pipeline) {tokens : List Token}
    (reads : List.Forall₂ Token.Reads tokens ts) {s : ReadState}
    {frames : List Frame} {p : Pending} (due : ctx.Due frames p s)
    (allowed : ctx.depth + frames.length + d ≤ ctx.limits.depth) :
    ∃ s', ctx.shifts s tokens = some s' ∧ Settled frames p e s' := by
  match h with
  | .value v =>
    obtain ⟨t, rest, first, others, rfl⟩ := List.forall₂_cons_right_iff.mp reads
    obtain rfl := List.forall₂_nil_right_iff.mp others
    exact ⟨_, (Shift.value due (first.terminal_eq nofun)).cons rfl, .operand⟩
  | .reference v segments =>
    obtain ⟨t, rest, named, others, rfl⟩ := List.forall₂_cons_right_iff.mp reads
    exact ⟨_, (shift_name due named).cons (segments.shifts others), .path _ (by simp)⟩
  | .group inside =>
    obtain ⟨t, tokens, u, rfl, ht, htokens, hu⟩ := split_bracketed reads
    obtain ⟨s', p', last, moved, settled, rfl⟩ := inside.shifts rule htokens
      (.start (.group t p :: frames) true) (by simp only [List.length_cons]; omega)
    exact ⟨_, (Shift.openGroup due ht (by omega)).cons
      (shifts_trans moved ((Shift.closeGroup settled hu).cons rfl)), .operand⟩
  | .emptyArray =>
    obtain ⟨t, rest, rfl, ht, others⟩ := split_symbol reads
    obtain ⟨u, rfl, hu⟩ := split_last others
    exact ⟨_, (Shift.openArray due ht (by omega)).cons ((Shift.emptyArray hu).cons rfl), .operand⟩
  | .array elements =>
    obtain ⟨t, tokens, u, rfl, ht, htokens, hu⟩ := split_bracketed reads
    obtain ⟨s', before, p', last, moved, settled, all⟩ := elements.shifts rule htokens
      (.start (.array [] p :: frames) true) (by omega)
    rw [List.reverse_nil, List.nil_append, ← List.reverse_cons] at all
    refine ⟨_, (Shift.openArray due ht (by omega)).cons
      (shifts_trans moved ((Shift.closeArray settled hu).cons rfl)), ?_⟩
    rw [all]
    exact .operand
  | .emptyObject =>
    obtain ⟨t, rest, rfl, ht, others⟩ := split_symbol reads
    obtain ⟨u, rfl, hu⟩ := split_last others
    exact ⟨_, (Shift.openObject due ht (by omega)).cons ((Shift.emptyObject hu).cons rfl),
      .operand⟩
  | .object inside =>
    obtain ⟨t, tokens, u, rfl, ht, htokens, hu⟩ := split_bracketed reads
    obtain ⟨s', ms, key, p', last, moved, settled, all⟩ := inside.shifts rule htokens
      frames true [] p (by omega)
    refine ⟨_, (Shift.openObject due ht (by omega)).cons
      (shifts_trans moved ((Shift.closeObject settled hu).cons rfl)), ?_⟩
    rw [all, foldl_putMember]
    exact .operand
termination_by structural h

theorem Operands.shifts {d : Nat} {ts : List Terminal} {es : List Expr} (h : Operands d ts es)
    (rule : ctx.rule = .pipeline) {tokens : List Token}
    (reads : List.Forall₂ Token.Reads tokens ts) {s : ReadState}
    {frames : List Frame} {p : Pending} (due : ctx.Due frames p s)
    (allowed : ctx.depth + frames.length + d ≤ ctx.limits.depth) :
    ∃ s' p' last, ctx.shifts s tokens = some s' ∧ Settled frames p' last s' ∧
      p'.stages = p.stages ∧ p'.operands.reverse ++ [last] = p.operands.reverse ++ es := by
  match h with
  | .one primary =>
    obtain ⟨s', moved, settled⟩ := primary.shifts rule reads due allowed
    exact ⟨s', p, _, moved, settled, rfl, rfl⟩
  | .more primary operands =>
    obtain ⟨tokens, others, rfl, htokens, hothers⟩ := split_append reads
    obtain ⟨s₁, moved₁, settled₁⟩ := primary.shifts rule htokens due allowed
    obtain ⟨s', p', last, moved, settled, stages, all⟩ := operands.shifts rule hothers
      (.next settled₁ (by simp [rule])) allowed
    refine ⟨s', p', last, shifts_trans moved₁ moved, settled, stages, ?_⟩
    simpa [Pending.push] using all
termination_by structural h

theorem Application.shifts {d : Nat} {ts : List Terminal} {e : Expr} (h : Application d ts e)
    (rule : ctx.rule = .pipeline) {tokens : List Token}
    (reads : List.Forall₂ Token.Reads tokens ts) {s : ReadState}
    {frames : List Frame} {p : Pending} (due : ctx.Due frames p s) (nothing : p.operands = [])
    (allowed : ctx.depth + frames.length + d ≤ ctx.limits.depth) :
    ∃ s' p' last, ctx.shifts s tokens = some s' ∧ Settled frames p' last s' ∧
      p'.stages = p.stages ∧ p'.application last = e := by
  match h with
  | .ofOperands operands =>
    obtain ⟨s', p', last, moved, settled, stages, all⟩ := operands.shifts rule reads due allowed
    rw [nothing] at all
    exact ⟨s', p', last, moved, settled, stages, Pending.application_eq all⟩
termination_by structural h

theorem Stages.shifts {d : Nat} {ts : List Terminal} {es : List Expr} (h : Stages d ts es)
    (rule : ctx.rule = .pipeline) {tokens : List Token}
    (reads : List.Forall₂ Token.Reads tokens ts) {s : ReadState}
    {frames : List Frame} {p : Pending} (due : ctx.Due frames p s) (nothing : p.operands = [])
    (allowed : ctx.depth + frames.length + d ≤ ctx.limits.depth) :
    ∃ s' p' last, ctx.shifts s tokens = some s' ∧ Settled frames p' last s' ∧
      p'.stages.reverse ++ [p'.application last] = p.stages.reverse ++ es := by
  match h with
  | .one application =>
    obtain ⟨s', p', last, moved, settled, stages, rfl⟩ :=
      application.shifts rule reads due nothing allowed
    exact ⟨s', p', last, moved, settled, by rw [stages]⟩
  | .more application rest =>
    obtain ⟨tokens, t, others, rfl, htokens, ht, hothers⟩ := split_separated reads
    obtain ⟨s₁, p₁, last₁, moved₁, settled₁, stages₁, rfl⟩ :=
      application.shifts rule htokens due nothing allowed
    obtain ⟨s', p', last, moved, settled, all⟩ :=
      rest.shifts rule hothers (.stage frames (p₁.endStage last₁)) rfl allowed
    have pipe : ctx.Shift t s₁ _ := .pipe settled₁ ht (by simp [rule]) (by simp [rule])
    refine ⟨s', p', last, shifts_trans moved₁ (pipe.cons moved), settled, ?_⟩
    simpa [Pending.endStage, stages₁] using all
termination_by structural h

theorem Pipeline.shifts {d : Nat} {ts : List Terminal} {e : Expr} (h : Pipeline d ts e)
    (rule : ctx.rule = .pipeline) {tokens : List Token}
    (reads : List.Forall₂ Token.Reads tokens ts) {s : ReadState}
    {frames : List Frame} (due : ctx.Due frames {} s)
    (allowed : ctx.depth + frames.length + d ≤ ctx.limits.depth) :
    ∃ s' p' last, ctx.shifts s tokens = some s' ∧ Settled frames p' last s' ∧
      p'.pipeline last = e := by
  match h with
  | .ofStages stages =>
    obtain ⟨s', p', last, moved, settled, all⟩ := stages.shifts rule reads due rfl allowed
    exact ⟨s', p', last, moved, settled, Pending.pipeline_eq all⟩
termination_by structural h

theorem Elements.shifts {d : Nat} {ts : List Terminal} {es : List Expr} (h : Elements d ts es)
    (rule : ctx.rule = .pipeline) {tokens : List Token}
    (reads : List.Forall₂ Token.Reads tokens ts) {s : ReadState}
    {frames : List Frame} {before : List Expr} {outer : Pending}
    (due : ctx.Due (.array before outer :: frames) {} s)
    (allowed : ctx.depth + (frames.length + 1) + d ≤ ctx.limits.depth) :
    ∃ s' after p' last, ctx.shifts s tokens = some s' ∧
      Settled (.array after outer :: frames) p' last s' ∧
      after.reverse ++ [p'.pipeline last] = before.reverse ++ es := by
  match h with
  | .one pipeline =>
    obtain ⟨s', p', last, moved, settled, rfl⟩ := pipeline.shifts rule reads due allowed
    exact ⟨s', before, p', last, moved, settled, rfl⟩
  | .more pipeline elements =>
    obtain ⟨tokens, t, others, rfl, htokens, ht, hothers⟩ := split_separated reads
    obtain ⟨s₁, p₁, last₁, moved₁, settled₁, rfl⟩ := pipeline.shifts rule htokens due allowed
    obtain ⟨s', after, p', last, moved, settled, all⟩ :=
      elements.shifts rule hothers (.start _ false) allowed
    refine ⟨s', after, p', last,
      shifts_trans moved₁ ((Shift.nextElement settled₁ ht).cons moved), settled, ?_⟩
    simpa using all
termination_by structural h

theorem Entries.shifts {d : Nat} {ts : List Terminal} {entries : List (String × Expr)}
    (h : Entries d ts entries) (rule : ctx.rule = .pipeline) {tokens : List Token}
    (reads : List.Forall₂ Token.Reads tokens ts)
    (frames : List Frame) (fresh : Bool) (ms : List (String × Expr)) (outer : Pending)
    (allowed : ctx.depth + (frames.length + 1) + d ≤ ctx.limits.depth) :
    ∃ s' ms' key p' last, ctx.shifts ⟨frames, .key fresh ms outer⟩ tokens = some s' ∧
      Settled (.object ms' key outer :: frames) p' last s' ∧
      putMember ms' key (p'.pipeline last) =
        entries.foldl (fun ms (key, value) => putMember ms key value) ms := by
  match h with
  | .one key pipeline =>
    obtain ⟨k, rest, named, others, rfl⟩ := List.forall₂_cons_right_iff.mp reads
    obtain ⟨colon, tokens, rfl, hcolon, htokens⟩ := split_symbol others
    obtain ⟨s', p', last, moved, settled, rfl⟩ := pipeline.shifts rule htokens
      (.start (.object ms _ outer :: frames) false) allowed
    exact ⟨s', ms, _, p', last, (shift_key key named).cons ((Shift.colon hcolon).cons moved),
      settled, rfl⟩
  | .more key pipeline rest =>
    obtain ⟨k, back, named, hback, rfl⟩ := List.forall₂_cons_right_iff.mp reads
    obtain ⟨colon, back, rfl, hcolon, hback⟩ := split_symbol hback
    obtain ⟨tokens, t, others, rfl, htokens, ht, hothers⟩ := split_separated hback
    obtain ⟨s₁, p₁, last₁, moved₁, settled₁, rfl⟩ := pipeline.shifts rule htokens
      (.start (.object ms _ outer :: frames) false) allowed
    obtain ⟨s', after, key', p', last, moved, settled, all⟩ :=
      rest.shifts rule hothers frames false _ outer allowed
    exact ⟨s', after, key', p', last, (shift_key key named).cons ((Shift.colon hcolon).cons
      (shifts_trans moved₁ ((Shift.nextEntry settled₁ ht).cons moved))), settled, all⟩
termination_by structural h

end

/-- What derives a tree within the limits is read as that tree. -/
theorem Pipeline.readTokens_of_reads {limits : Limits} {ts : List Terminal} {e : Expr}
    (h : Pipeline limits.depth ts e) {tokens : List Token}
    (reads : List.Forall₂ Token.Reads tokens ts) (source : String) :
    readTokens limits source tokens = .ok e := by
  have rule : ReadContext.rule { limits := limits } = .pipeline := rfl
  obtain ⟨s', p', last, moved, settled, eq⟩ := h.shifts rule reads (.start [] false) (by simp)
  exact readTokens_eq_ok_iff.mpr ⟨s', moved, atEnd_eq_ok_iff.mpr ⟨p', last, settled, eq⟩⟩

theorem Pipeline.readTokens {limits : Limits} {tokens : List Token} {e : Expr}
    (h : Pipeline limits.depth (tokens.map Token.terminal) e)
    (writable : ∀ t ∈ tokens, t.role ≠ .overlong) (source : String) :
    readTokens limits source tokens = .ok e := by
  have reads : List.Forall₂ Token.Reads tokens (tokens.map Token.terminal) :=
    List.forall₂_map_right_iff.mpr
      (List.forall₂_same.mpr fun t mem => Token.reads_terminal (writable t mem))
  exact h.readTokens_of_reads reads source

end Grammar

end PipeExpr
