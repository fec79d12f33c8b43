import PipeExpr.Proofs.Reading.Soundness

set_option autoImplicit false

namespace PipeExpr
open Grammar ReadContext

/-- No name is an integer of more digits than can be written. -/
def WritableNames (tokens : List Token) : Prop :=
  ∀ t ∈ tokens, ∀ n : Int, t.terminal = ⟨.reference, .int n⟩ → n.natAbs < 10 ^ maxIntegerDigits

theorem Token.role_eq_overlong {t : Token} {n : Int} (name : t.terminal = ⟨.reference, .int n⟩)
    (long : 10 ^ maxIntegerDigits ≤ n.natAbs) : t.role = .overlong :=
  role_eq_overlong_iff.mpr ⟨.int n, name, Scalar.text?_eq_none_iff.mpr ⟨n, rfl, long⟩⟩

theorem Token.role_ne_overlong_iff {t : Token} :
    t.role ≠ .overlong ↔
      ∀ n : Int, t.terminal = ⟨.reference, .int n⟩ → n.natAbs < 10 ^ maxIntegerDigits := by
  constructor
  · intro writable n name
    by_contra long
    exact writable (role_eq_overlong name (Nat.le_of_not_lt long))
  · intro short overlong
    obtain ⟨v, name, unwritten⟩ := role_eq_overlong_iff.mp overlong
    obtain ⟨n, rfl, long⟩ := Scalar.text?_eq_none_iff.mp unwritten
    exact absurd (short n name) (Nat.not_lt.mpr long)

variable {tokens : List Token} {t : Token} {s s' : ReadState} {ctx : ReadContext}

theorem writableNames_iff : WritableNames tokens ↔ ∀ t ∈ tokens, t.role ≠ .overlong := by
  simp only [Token.role_ne_overlong_iff, WritableNames]

theorem ReadContext.Shift.role_ne_overlong (h : ctx.Shift t s s') : t.role ≠ .overlong := by
  intro overlong
  obtain ⟨v, name, unwritten⟩ := Token.role_eq_overlong_iff.mp overlong
  cases h with
  | name _ eq written | segment eq written _ =>
    cases name.symm.trans eq
    rw [unwritten] at written
    cases written
  | key _ writable => exact writable overlong
  | value _ eq | openGroup _ eq _ | openArray _ eq _ | openObject _ eq _ | emptyArray eq
  | emptyObject eq | dot eq | pipe _ eq _ _ | closeGroup _ eq | nextElement _ eq
  | closeArray _ eq | nextEntry _ eq | closeObject _ eq | colon eq => cases name.symm.trans eq

theorem writableNames_of_shifts (h : ctx.shifts s tokens = some s') : WritableNames tokens := by
  rw [writableNames_iff]
  induction tokens generalizing s with
  | nil => exact List.forall_mem_nil _
  | cons t tokens ih =>
    obtain ⟨next, first, rest⟩ := shifts_cons_iff.mp h
    exact List.forall_mem_cons.mpr ⟨first.role_ne_overlong, ih rest⟩

def Terminal.bare (a : Terminal) : Token :=
  ⟨a.kind, a.value, .start, ""⟩

theorem toString_ne_rootMarker (n : Int) : toString n ≠ rootMarker := by
  intro eq
  have chars := congrArg String.toList eq
  cases n with
  | ofNat m =>
    have digits : (toString (Int.ofNat m)).toList = Nat.toDigits 10 m := String.toList_ofList
    have marker : '@' ∈ Nat.toDigits 10 m := by
      rw [← digits, chars]
      decide
    exact absurd (Nat.isDigit_of_mem_toDigits (by decide) (by decide) marker) (by decide)
  | negSucc m =>
    have sign : (toString (Int.negSucc m)).toList.head? = some '-' := by
      rw [show toString (Int.negSucc m) = "-" ++ Nat.repr (m + 1) from rfl, String.toList_append]
      rfl
    rw [chars] at sign
    exact absurd sign (by decide)

theorem Terminal.exists_reads (a : Terminal) : ∃ t : Token, t.Reads a := by
  by_cases overlong : a.bare.role = .overlong
  · -- The text of the number stands for it.
    obtain ⟨v, name, unwritten⟩ := Token.role_eq_overlong_iff.mp overlong
    obtain rfl : a = ⟨.reference, v⟩ := name
    obtain ⟨n, rfl, -⟩ := Scalar.text?_eq_none_iff.mp unwritten
    have notRoot : Scalar.string (toString n) ≠ .string rootMarker :=
      fun eq => toString_ne_rootMarker n (Scalar.string.inj eq)
    refine ⟨⟨.reference, .string (toString n), .start, ""⟩, .name _ ?_⟩
    refine Token.role_eq_name_iff.mpr ⟨_, rfl, rfl, ?_⟩
    rw [decide_eq_true notRoot]
    exact decide_eq_true nofun
  · exact ⟨a.bare, Token.reads_terminal overlong⟩

theorem Terminal.exists_forall₂_reads (ts : List Terminal) :
    ∃ tokens, List.Forall₂ Token.Reads tokens ts := by
  induction ts with
  | nil => exact ⟨[], .nil⟩
  | cons a ts ih =>
    obtain ⟨t, first⟩ := a.exists_reads
    obtain ⟨tokens, others⟩ := ih
    exact ⟨t :: tokens, .cons first others⟩

namespace Grammar

theorem Pipeline.unique {d d' : Nat} {ts : List Terminal} {e e' : Expr} (h : Pipeline d ts e)
    (h' : Pipeline d' ts e') : e = e' := by
  let limits : Limits := ⟨d + d' + 1, by omega⟩
  have first : Pipeline limits.depth ts e := h.mono (by simp only [limits]; omega)
  have second : Pipeline limits.depth ts e' := h'.mono (by simp only [limits]; omega)
  obtain ⟨tokens, reads⟩ := Terminal.exists_forall₂_reads ts
  have same :=
    (first.readTokens_of_reads reads "").symm.trans (second.readTokens_of_reads reads "")
  exact Except.ok.inj same

end Grammar

/-- Reading accepts exactly the token lists that derive a pipeline within the limits and hold no
    name that cannot be written, and answers the tree that they derive. No token list derives
    two. -/
theorem readTokens_ok_iff_pipeline (limits : Limits) (source : String) (tokens : List Token) :
    (∀ t, readTokens limits source tokens = .ok t ↔
      Pipeline limits.depth (tokens.map Token.terminal) t ∧ WritableNames tokens) ∧
    ∀ d d' t t', Pipeline d (tokens.map Token.terminal) t →
      Pipeline d' (tokens.map Token.terminal) t' → t = t' := by
  refine ⟨fun t => ⟨fun read => ⟨pipeline_of_readTokens read, ?_⟩, ?_⟩, ?_⟩
  · obtain ⟨s, moved, -⟩ := readTokens_eq_ok_iff.mp read
    exact writableNames_of_shifts moved
  · rintro ⟨derived, writable⟩
    exact derived.readTokens (writableNames_iff.mp writable) source
  · intro d d' t t' h h'
    exact h.unique h'

theorem ReadContext.step_overlong (overlong : t.role = .overlong) :
    ctx.step {} t = .fail (.atToken .overlongName t) := by
  simp only [step, start, begin?, overlong]

theorem readTokens_of_refused {limits : Limits} {e : ReadError}
    (stop : step { limits := limits } {} t = .fail e) (source : String) (rest : List Token) :
    readTokens limits source (t :: rest) = .error e := by
  have moved : shifts { limits := limits } {} [] = some {} := rfl
  exact readTokens_of_fail moved stop source rest

/-- A name of one digit too many derives a reference and is not read. -/
theorem readTokens_overlong_name :
    let n : Int := (10 ^ maxIntegerDigits : Nat)
    let name : Token := ⟨.reference, .int n, .start, ""⟩
    Pipeline 1 [name.terminal] (.reference [toString n]) ∧
      readTokens {} "" [name] = .error (.atToken .overlongName name) := by
  intro n name
  have primary : Primary 1 [name.terminal] (.reference [toString n]) := .reference (.int n) .nil
  have long : 10 ^ maxIntegerDigits ≤ n.natAbs := Nat.le_of_eq (Int.natAbs_natCast _).symm
  exact ⟨.ofStages (.one (.ofOperands (.one primary))),
    readTokens_of_refused (step_overlong (Token.role_eq_overlong rfl long)) "" []⟩

end PipeExpr
