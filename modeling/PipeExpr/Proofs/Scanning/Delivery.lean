import PipeExpr.Proofs.Scanning.Munch

/-!
# What a scanner delivers

Every way in which a scanner can go one step, one constructor each; the relation is the step itself:
`next_eq_iff`. The tokens of a source are delivered by such steps one after the other, up to its end
or to the first failure. Without their places they are the division of the source: `scan_ok_iff`.
-/

set_option autoImplicit false

namespace PipeExpr.Scanner

inductive Step : Scanner → ScanEvent → Scanner → Prop
  | token {gap text rest : List Char} {l : Location} {p : Pattern} {a : Terminal} :
      IsBlanks gap → FirstMatch (text ++ rest) text (.lexeme p) →
        p.read? text = some (a.kind, a.value) →
          Step ⟨gap ++ (text ++ rest), l⟩
            (.token ⟨a.kind, a.value, l.advance gap, String.ofList text⟩)
            ⟨rest, (l.advance gap).advance text⟩
  | outOfRange {gap text rest : List Char} {c : Char} {l : Location} {p : Pattern} :
      IsBlanks gap → FirstMatch (c :: text ++ rest) (c :: text) (.lexeme p) →
        p.read? (c :: text) = none →
          Step ⟨gap ++ (c :: text ++ rest), l⟩
            (.failure ⟨c.toString, l.advance gap, .outOfRange⟩)
            ⟨rest, (l.advance gap).advance (c :: text)⟩
  | unexpected {gap rest : List Char} {c : Char} {l : Location} :
      IsBlanks gap →
        (∀ (kind : PieceKind) (text : List Char), kind.Matches text → ¬text <+: c :: rest) →
          Step ⟨gap ++ c :: rest, l⟩
            (.failure ⟨c.toString, l.advance gap, .unexpectedCharacter⟩)
            ⟨c :: rest, l.advance gap⟩
  | finish {gap : List Char} {l : Location} :
      IsBlanks gap → Step ⟨gap, l⟩ .finish ⟨[], l.advance gap⟩

variable {s s' s'' : Scanner} {event : ScanEvent} {t : Token} {tokens : List Token}

theorem next_blanks {gap : List Char} (blanks : IsBlanks gap) (cs : List Char) (l : Location) :
    next ⟨gap ++ cs, l⟩ = next ⟨cs, l.advance gap⟩ := by
  induction gap generalizing l with
  | nil => rfl
  | cons c gap ih =>
    obtain ⟨isBlank, others⟩ := List.forall_mem_cons.mp blanks
    rw [List.cons_append, next_blank isBlank, ih others, Location.advance_cons]

theorem isBlank_of_no_piece {c : Char} {rest : List Char}
    (none : ∀ text, PieceKind.blank.Matches text → ¬text <+: c :: rest) :
    Text.isBlank c = false := by
  rw [← Bool.not_eq_true]
  intro isBlank
  have blanks : PieceKind.blank.Matches [c] :=
    .blank (List.cons_ne_nil c []) (List.forall_mem_singleton.mpr isBlank)
  exact none [c] blanks (List.cons_prefix_cons.mpr ⟨rfl, List.nil_prefix⟩)

theorem isBlank_of_firstMatch {c : Char} {rest text : List Char} {p : Pattern}
    (h : FirstMatch (c :: rest) text (.lexeme p)) : Text.isBlank c = false := by
  have earlier : PieceKind.blank ∈ (PieceKind.lexeme p).before := by
    rw [Pattern.before_lexeme]
    exact List.mem_cons_self
  exact isBlank_of_no_piece (h.first .blank earlier)

theorem Step.next_eq (h : Step s event s') : s.next = (event, s') := by
  cases h with
  | @token gap text rest l p a blanks first value =>
    obtain ⟨c, text, rfl⟩ := List.exists_cons_of_ne_nil first.known.ne_nil
    rw [next_blanks blanks]
    exact next_lexeme (isBlank_of_firstMatch first) (Pattern.first?_append_iff.mpr first) value _
  | @outOfRange gap text rest c l p blanks first value =>
    have fits : Pattern.first? (c :: (text ++ rest)) = some (p, text.length + 1) :=
      Pattern.first?_append_iff.mpr first
    rw [next_blanks blanks, List.cons_append, next_of_not_blank (isBlank_of_firstMatch first)]
    simp only [eventHere, fits, List.take_succ_cons, List.take_left, value, skip,
      List.drop_succ_cons, List.drop_left]
  | @unexpected gap rest c l blanks none =>
    have noPattern : Pattern.first? (c :: rest) = .none :=
      Pattern.first?_eq_none_iff.mpr fun p text fits => none (.lexeme p) text (.lexeme fits)
    rw [next_blanks blanks, next_of_not_blank (isBlank_of_no_piece (none .blank))]
    simp only [eventHere, noPattern]
  | @finish gap l blanks =>
    have all := next_blanks blanks [] l
    rw [List.append_nil] at all
    exact all

theorem exists_blanks (cs : List Char) :
    ∃ gap rest, cs = gap ++ rest ∧ IsBlanks gap ∧ Stops Text.isBlank rest := by
  induction cs with
  | nil => exact ⟨[], [], rfl, List.forall_mem_nil _, nofun⟩
  | cons c cs ih =>
    cases isBlank : Text.isBlank c with
    | true =>
      obtain ⟨gap, rest, rfl, blanks, stops⟩ := ih
      exact ⟨c :: gap, rest, rfl, List.forall_mem_cons.mpr ⟨isBlank, blanks⟩, stops⟩
    | false =>
      refine ⟨[], c :: cs, rfl, List.forall_mem_nil _, ?_⟩
      rintro d ⟨⟩
      exact isBlank

theorem step_next (s : Scanner) : Step s s.next.1 s.next.2 := by
  obtain ⟨cs, l⟩ := s
  obtain ⟨gap, rest, rfl, blanks, stops⟩ := exists_blanks cs
  rw [next_blanks blanks]
  cases rest with
  | nil =>
    rw [List.append_nil]
    exact .finish blanks
  | cons c rest =>
    have notBlank : Text.isBlank c = false := stops c rfl
    rcases next_cases notBlank rest (l.advance gap) with ⟨text, rest, p, a, rfl, first, value⟩ |
      ⟨text, rest, p, rfl, first, value, failed⟩ | ⟨none, failed⟩
    · rw [← List.cons_append, next_lexeme notBlank first value]
      exact .token blanks (Pattern.first?_append_iff.mp first) value
    · rw [← List.cons_append, failed]
      exact .outOfRange blanks (Pattern.first?_append_iff.mp first) value
    · rw [failed]
      refine .unexpected blanks ?_
      intro kind text known isPrefix
      cases known with
      | blank nonempty inside =>
        obtain ⟨d, text, rfl⟩ := List.exists_cons_of_ne_nil nonempty
        obtain ⟨rfl, -⟩ := List.cons_prefix_cons.mp isPrefix
        rw [inside d List.mem_cons_self] at notBlank
        cases notBlank
      | lexeme fits => exact Pattern.first?_eq_none_iff.mp none _ text fits isPrefix

theorem next_eq_iff : s.next = (event, s') ↔ Step s event s' := by
  refine ⟨fun h => ?_, Step.next_eq⟩
  have step := step_next s
  rw [h] at step
  exact step

/-- The scanner delivers the tokens, and `s'` is reached. -/
inductive Delivers : Scanner → List Token → Scanner → Prop
  | done (s : Scanner) : Delivers s [] s
  | cons {s s' s'' : Scanner} {t : Token} {tokens : List Token} :
      Step s (.token t) s' → Delivers s' tokens s'' → Delivers s (t :: tokens) s''

theorem Step.length_lt (h : Step s (.token t) s') : s'.rest.length < s.rest.length := by
  cases h with
  | token _ first _ =>
    have positive := List.length_pos_iff.mpr first.known.ne_nil
    simp only [List.length_append]
    omega

theorem exists_delivers (s : Scanner) : ∃ tokens s', Delivers s tokens s' ∧
    ((∃ s'', Step s' .finish s'') ∨ ∃ e s'', Step s' (.failure e) s'') := by
  cases next : s.next with
  | mk event s' =>
    have step := next_eq_iff.mp next
    cases event with
    | token t =>
      have shorter := step.length_lt
      obtain ⟨tokens, s'', delivered, stop⟩ := exists_delivers s'
      exact ⟨t :: tokens, s'', .cons step delivered, stop⟩
    | failure e => exact ⟨[], s, .done s, .inr ⟨e, s', step⟩⟩
    | finish => exact ⟨[], s, .done s, .inl ⟨s', step⟩⟩
termination_by s.rest.length

/-- One step for each character, and one more, outlast the tokens. -/
theorem Delivers.drainFrom (h : Delivers s tokens s') {steps : Nat}
    (enough : s.rest.length ≤ steps) (seen : List Token) :
    ∃ fewer, drainFrom (steps + 1) seen s = drainFrom (fewer + 1) (tokens.reverse ++ seen) s' := by
  induction h generalizing steps seen with
  | done => exact ⟨steps, rfl⟩
  | @cons s s' s'' t tokens step _ ih =>
    have shorter := step.length_lt
    obtain ⟨steps, rfl⟩ : ∃ k, steps = k + 1 := ⟨steps - 1, by omega⟩
    have restEnough : s'.rest.length ≤ steps := by omega
    obtain ⟨fewer, same⟩ := ih restEnough (t :: seen)
    refine ⟨fewer, ?_⟩
    rw [List.reverse_cons, List.append_assoc, Scanner.drainFrom, step.next_eq]
    exact same

theorem Delivers.drain_finish (h : Delivers s tokens s') (last : Step s' .finish s'') :
    s.drain = (.ok tokens, s'') := by
  obtain ⟨fewer, same⟩ := h.drainFrom (Nat.le_refl _) []
  rw [drain, same, Scanner.drainFrom, last.next_eq, List.append_nil, List.reverse_reverse]

theorem Delivers.drain_failure {e : ScanError} (h : Delivers s tokens s')
    (last : Step s' (.failure e) s'') : s.drain = (.error e, s'') := by
  obtain ⟨fewer, same⟩ := h.drainFrom (Nat.le_refl _) []
  rw [drain, same, Scanner.drainFrom, last.next_eq]

end Scanner

open Scanner

theorem scan_eq_ok_iff {source : String} {tokens : List Token} :
    scan source = .ok tokens ↔
      ∃ s s', Delivers (.ofSource source) tokens s ∧ Step s .finish s' := by
  constructor
  · intro h
    obtain ⟨tokens', s, delivered, ⟨s', last⟩ | ⟨e, s', last⟩⟩ := exists_delivers (.ofSource source)
    · rw [scan, delivered.drain_finish last] at h
      cases h
      exact ⟨s, s', delivered, last⟩
    · rw [scan, delivered.drain_failure last] at h
      cases h
  · rintro ⟨s, s', delivered, last⟩
    rw [scan, delivered.drain_finish last]

theorem scan_eq_error_iff {source : String} {e : ScanError} :
    scan source = .error e ↔
      ∃ tokens s s', Delivers (.ofSource source) tokens s ∧ Step s (.failure e) s' := by
  constructor
  · intro h
    obtain ⟨tokens, s, delivered, ⟨s', last⟩ | ⟨e', s', last⟩⟩ :=
      exists_delivers (.ofSource source)
    · rw [scan, delivered.drain_finish last] at h
      cases h
    · rw [scan, delivered.drain_failure last] at h
      cases h
      exact ⟨tokens, s, s', delivered, last⟩
  · rintro ⟨tokens, s, s', delivered, last⟩
    rw [scan, delivered.drain_failure last]

theorem Lexes.blanks {gap cs : List Char} {as : List Terminal} (blanks : IsBlanks gap)
    (h : Lexes cs as) : Lexes (gap ++ cs) as := by
  induction gap with
  | nil => exact h
  | cons c gap ih =>
    obtain ⟨isBlank, others⟩ := List.forall_mem_cons.mp blanks
    exact .blank isBlank (ih others)

namespace Scanner

variable {s s' s'' : Scanner} {event : ScanEvent} {tokens : List Token}

theorem Step.blank {c : Char} {cs : List Char} {l : Location} (isBlank : Text.isBlank c = true)
    (h : Step ⟨cs, l.step c⟩ event s') : Step ⟨c :: cs, l⟩ event s' := by
  rw [← next_eq_iff, next_blank isBlank]
  exact h.next_eq

theorem Delivers.lexes (h : Delivers s tokens s') (last : Step s' .finish s'') :
    Lexes s.rest (tokens.map Token.terminal) := by
  induction h with
  | done s =>
    cases last with
    | finish blanks =>
      have lexes := Lexes.blanks blanks .nil
      rw [List.append_nil] at lexes
      exact lexes
  | cons step _ ih =>
    cases step with
    | @token gap text rest l p a blanks first value =>
      obtain ⟨c, text, rfl⟩ := List.exists_cons_of_ne_nil first.known.ne_nil
      exact .blanks blanks (.lexeme (isBlank_of_firstMatch first)
        (Pattern.first?_append_iff.mpr first) value (ih last))

end Scanner

theorem Lexes.delivers {cs : List Char} {as : List Terminal} (h : Lexes cs as) (l : Location) :
    ∃ tokens s s', Delivers ⟨cs, l⟩ tokens s ∧ Step s .finish s' ∧
      tokens.map Token.terminal = as := by
  induction h generalizing l with
  | nil => exact ⟨[], _, _, .done _, .finish (List.forall_mem_nil _), rfl⟩
  | @blank c cs as isBlank _ ih =>
    obtain ⟨tokens, s, s', delivered, last, terminals⟩ := ih (l.step c)
    cases delivered with
    | done => exact ⟨[], _, s', .done _, last.blank isBlank, terminals⟩
    | cons step others => exact ⟨_, s, s', .cons (step.blank isBlank) others, last, terminals⟩
  | @lexeme c text rest p a as notBlank first value _ ih =>
    obtain ⟨tokens, s, s', delivered, last, terminals⟩ := ih (l.advance (c :: text))
    have here : FirstMatch (c :: text ++ rest) (c :: text) (.lexeme p) :=
      Pattern.first?_append_iff.mp first
    have step := Step.token (l := l) (List.forall_mem_nil _) here value
    exact ⟨_, s, s', .cons step delivered, last, congrArg (a :: ·) terminals⟩

/-- The tokens of a source are those of its division. -/
theorem scan_ok_iff {source : String} {as : List Terminal} :
    (∃ tokens, scan source = .ok tokens ∧ tokens.map Token.terminal = as) ↔
      Lexes source.toList as := by
  constructor
  · rintro ⟨tokens, scanned, rfl⟩
    obtain ⟨s, s', delivered, last⟩ := scan_eq_ok_iff.mp scanned
    exact delivered.lexes last
  · intro lexes
    obtain ⟨tokens, s, s', delivered, last, terminals⟩ := lexes.delivers .start
    exact ⟨tokens, scan_eq_ok_iff.mpr ⟨s, s', delivered, last⟩, terminals⟩

end PipeExpr
