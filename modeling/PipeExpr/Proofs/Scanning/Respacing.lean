import PipeExpr.Proofs.Scanning.Tiling

/-!
# Other gaps between the same tokens

A lexeme is scanned as before when other text follows it, unless the new text makes it longer where
the old one did not. White space never does, so the gaps of a source may be exchanged for others as
long as no gap is closed.
-/

set_option autoImplicit false

namespace PipeExpr

variable {text tail tail' : List Char} {p q : Pattern} {c : Char} {more : List Char}

/-- The least texts that make a longer lexeme of another: one visible character, or the beginning of
    a fraction behind an integer. -/
inductive Extension : List Char → Prop
  | char {c : Char} : Text.isBlank c = false → Extension [c]
  | fraction {d : Char} : Text.isDigit d = true → Extension ['.', d]

/-- No extension begins `tail'` that does not begin `tail`. -/
def Confined (tail tail' : List Char) : Prop :=
  ∀ short, Extension short → short <+: tail' → short <+: tail

theorem IsDigits.concat {digits : List Char} (h : IsDigits digits) (digit : Text.isDigit c = true) :
    IsDigits (digits ++ [c]) := by
  refine ⟨by simp, ?_⟩
  intro d mem
  rcases List.mem_append.mp mem with mem | mem
  · exact h.inside d mem
  · rw [List.mem_singleton.mp mem]
    exact digit

theorem isDigit_point : Text.isDigit '.' ≠ true := by decide

namespace Pattern

theorem Matches.shorten_integer (digits : IsDigits text)
    (h : Matches .decimal (text ++ c :: more)) :
    ∃ short, Extension short ∧ short <+: c :: more ∧ ∃ q : Pattern, q.Matches (text ++ short) := by
  generalize eq : text ++ c :: more = whole at h
  cases h with
  | @decimal whole fraction wholeDigits fractionDigits =>
    obtain ⟨d, ds, rfl⟩ := List.exists_cons_of_ne_nil fractionDigits.ne_nil
    have digit := fractionDigits.inside d List.mem_cons_self
    have single : IsDigits [d] := ⟨List.cons_ne_nil d [], List.forall_mem_singleton.mpr digit⟩
    rcases List.append_eq_append_iff.mp eq with ⟨between, rfl, rest⟩ | ⟨between, rfl, rest⟩
    · cases between with
      | nil =>
        cases rest
        rw [List.append_nil] at wholeDigits
        exact ⟨['.', d], .fraction digit, List.prefix_append ['.', d] ds, .decimal,
          .decimal wholeDigits single⟩
      | cons e between =>
        cases rest
        have inside := wholeDigits.inside c (by simp)
        exact ⟨[c], .char (isBlank_of_isDigit inside), by simp, .integer,
          .integer (digits.concat inside)⟩
    · cases between with
      | nil =>
        cases rest
        rw [List.append_nil]
        exact ⟨['.', d], .fraction digit, List.prefix_append ['.', d] ds, .decimal,
          .decimal wholeDigits single⟩
      | cons e between =>
        obtain ⟨rfl, -⟩ := List.cons.inj rest
        exact absurd (digits.inside '.' (by simp)) isDigit_point

theorem Matches.shorten_decimal (h : Matches .decimal text)
    (h' : Matches .decimal (text ++ c :: more)) :
    Text.isDigit c = true ∧ Matches .decimal (text ++ [c]) := by
  generalize eq : text ++ c :: more = longer at h'
  cases h with
  | @decimal whole fraction wholeDigits fractionDigits =>
    cases h' with
    | @decimal whole' fraction' wholeDigits' fractionDigits' =>
      have point : ∀ cs, Stops Text.isDigit ('.' :: cs) := by
        rintro cs c ⟨⟩
        decide
      have run := congrArg (List.takeWhile Text.isDigit) eq
      rw [List.append_assoc, List.cons_append, takeWhile_stops wholeDigits.inside (point _),
        takeWhile_stops wholeDigits'.inside (point _)] at run
      subst run
      rw [List.append_assoc, List.cons_append] at eq
      obtain rfl := (List.cons.inj (List.append_cancel_left eq)).2
      have digit := fractionDigits'.inside c (by simp)
      refine ⟨digit, ?_⟩
      rw [List.append_assoc, List.cons_append]
      exact .decimal wholeDigits (fractionDigits.concat digit)

theorem Matches.shorten (h : p.Matches text) (h' : q.Matches (text ++ c :: more)) :
    ∃ short, Extension short ∧ short <+: c :: more ∧ ∃ q : Pattern, q.Matches (text ++ short) := by
  have isPrefix : text <+: text ++ c :: more := List.prefix_append ..
  have single : [c] <+: c :: more := List.prefix_append [c] more
  rcases (PieceKind.Matches.lexeme h).eq_or_numeral (.lexeme h') isPrefix (List.prefix_refl _) with
    same | ⟨decimal, integer⟩ | ⟨integer, decimal⟩
  · cases same
    generalize eq : text ++ c :: more = longer at h'
    have nonempty := h.ne_nil
    -- Symbols, roots and quotations have no longer ones; words and numerals grow by characters.
    cases h' with
    | symbol => simp [List.append_eq_singleton_iff, nonempty] at eq
    | root => simp [List.append_eq_singleton_iff, nonempty] at eq
    | quotation body' =>
      cases h with
      | quotation body =>
        rw [List.cons_append] at eq
        have eq := (List.cons.inj eq).2
        have le := body.length_le body' ⟨_, eq⟩
        have length := congrArg List.length eq
        simp only [List.length_append, List.length_cons] at length
        omega
    | word start inside =>
      obtain ⟨b, text, rfl⟩ := List.exists_cons_of_ne_nil nonempty
      cases eq
      have part := inside c (by simp)
      have within : text ++ [c] <+: text ++ c :: more :=
        (List.prefix_append_right_inj text).mpr single
      exact ⟨[c], .char (isBlank_of_isWordPart part), single, .word,
        .word start fun d mem => inside d (within.subset mem)⟩
    | integer digits' =>
      cases h with
      | integer digits =>
        have digit := digits'.inside c (by simp [← eq])
        exact ⟨[c], .char (isBlank_of_isDigit digit), single, .integer,
          .integer (digits.concat digit)⟩
    | decimal digits digits' =>
      have longer : Matches .decimal (text ++ c :: more) := eq ▸ .decimal digits digits'
      obtain ⟨digit, decimal⟩ := h.shorten_decimal longer
      exact ⟨[c], .char (isBlank_of_isDigit digit), single, .decimal, decimal⟩
  · cases decimal
    cases integer
    have le := h.integer_le h' isPrefix (List.prefix_refl _)
    simp at le
  · cases integer
    cases decimal
    cases h with
    | integer digits => exact h'.shorten_integer digits

end Pattern

theorem Extension.ne_nil {short : List Char} (h : Extension short) : short ≠ [] := by
  cases h <;> exact List.cons_ne_nil _ _

/-- Behind the same text another tail makes longer pieces only by an extension that makes a lexeme
    and that the old tail did not begin with. -/
theorem FirstMatch.exists_extension {kind : PieceKind} {other : List Char}
    (h : FirstMatch (text ++ tail) text (.lexeme p)) (known : kind.Matches other)
    (isPrefix : other <+: text ++ tail') (longer : ¬other.length ≤ text.length) :
    ∃ short, Extension short ∧ short <+: tail' ∧ ¬short <+: tail ∧
      ∃ q : Pattern, q.Matches (text ++ short) := by
  have here : text <+: text ++ tail' := List.prefix_append ..
  cases h.known with
  | lexeme fits =>
    cases known with
    | blank nonempty blanks =>
      rcases (PieceKind.Matches.lexeme fits).eq_or_numeral (.blank nonempty blanks) here
        isPrefix with same | ⟨-, same⟩ | ⟨-, same⟩ <;> cases same
    | lexeme known =>
      obtain ⟨more, rfl⟩ :=
        List.prefix_of_prefix_length_le here isPrefix (Nat.le_of_not_le longer)
      cases more with
      | nil => exact absurd (by rw [List.append_nil]) longer
      | cons c more =>
        obtain ⟨short, extension, begins, q, shorter⟩ := fits.shorten known
        have behind := begins.trans ((List.prefix_append_right_inj text).mp isPrefix)
        refine ⟨short, extension, behind, fun before => ?_, q, shorter⟩
        have le := h.longestMatch.longest (.lexeme q) (text ++ short) (.lexeme shorter)
          ((List.prefix_append_right_inj text).mpr before)
        have positive := List.length_pos_iff.mpr extension.ne_nil
        rw [List.length_append] at le
        omega

theorem FirstMatch.of_no_extension (h : FirstMatch (text ++ tail) text (.lexeme p))
    (none : ∀ (short : List Char) (q : Pattern), Extension short → short <+: tail' →
      q.Matches (text ++ short) → short <+: tail) :
    FirstMatch (text ++ tail') text (.lexeme p) := by
  have le {kind : PieceKind} {other : List Char} (known : kind.Matches other)
      (isPrefix : other <+: text ++ tail') : other.length ≤ text.length := by
    by_contra longer
    obtain ⟨short, extension, begins, new, q, fits⟩ := h.exists_extension known isPrefix longer
    exact new (none short q extension begins fits)
  refine ⟨List.prefix_append .., h.known, fun _ => le, ?_⟩
  intro earlier mem other known isPrefix
  have within := List.prefix_of_prefix_length_le isPrefix (List.prefix_append ..)
    (le known isPrefix)
  exact h.first earlier mem other known (within.trans (List.prefix_append ..))

theorem FirstMatch.confined (h : FirstMatch (text ++ tail) text (.lexeme p))
    (confined : Confined tail tail') : FirstMatch (text ++ tail') text (.lexeme p) :=
  h.of_no_extension fun short _ extension begins _ => confined short extension begins

theorem Confined.append (h : Confined tail tail') (nonempty : text ≠ []) :
    Confined (text ++ tail) (text ++ tail') := by
  obtain ⟨c, text, rfl⟩ := List.exists_cons_of_ne_nil nonempty
  intro short extension begins
  cases extension with
  | char => 
    rw [List.cons_append, List.cons_prefix_cons] at begins ⊢
    exact ⟨begins.1, List.nil_prefix⟩
  | @fraction d digit =>
    rw [List.cons_append, List.cons_prefix_cons] at begins ⊢
    refine ⟨begins.1, ?_⟩
    cases text with
    | nil => exact h [d] (.char (isBlank_of_isDigit digit)) begins.2
    | cons e text =>
      rw [List.cons_append, List.cons_prefix_cons] at begins ⊢
      exact ⟨begins.2.1, List.nil_prefix⟩

theorem Confined.blanks {gap : List Char} (blanks : IsBlanks gap) (nonempty : gap ≠ [])
    (tail tail' : List Char) : Confined tail (gap ++ tail') := by
  obtain ⟨b, gap, rfl⟩ := List.exists_cons_of_ne_nil nonempty
  have isBlank := blanks b List.mem_cons_self
  intro short extension begins
  cases extension with
  | char notBlank =>
    rw [List.cons_append, List.cons_prefix_cons] at begins
    rw [begins.1, isBlank] at notBlank
    cases notBlank
  | fraction =>
    rw [List.cons_append, List.cons_prefix_cons] at begins
    rw [← begins.1] at isBlank
    cases isBlank

theorem Confined.nil (tail : List Char) : Confined tail [] := by
  intro short extension begins
  cases extension <;> cases List.prefix_nil.mp begins

/-- Gaps that may stand between the tokens: only where the next token follows at once there need
    not be white space. -/
structure Spacing (tokens : List Token) (gaps : List (List Char)) : Prop where
  length_gaps : gaps.length = tokens.length
  blank : ∀ gap ∈ gaps, IsBlanks gap
  apart : ∀ (i : Nat) (t u : Token), tokens[i]? = some t → tokens[i + 1]? = some u →
    t.finish.position < u.start.position → gaps[i + 1]? ≠ some []

/-- What a token is when its place is forgotten. -/
def Token.lexeme (t : Token) : TokenKind × Scalar × String :=
  (t.kind, t.value, t.text)

theorem Spacing.others {t : Token} {tokens : List Token} {gap : List Char} {gaps : List (List Char)}
    (h : Spacing (t :: tokens) (gap :: gaps)) : Spacing tokens gaps where
  length_gaps := Nat.succ.inj h.length_gaps
  blank := (List.forall_mem_cons.mp h.blank).2
  apart i := h.apart (i + 1)

theorem Confined.gap {gap : List Char} (blanks : IsBlanks gap)
    (h : gap = [] → Confined tail tail') : Confined tail (gap ++ tail') := by
  by_cases closed : gap = []
  · rw [closed]
    exact h closed
  · exact .blanks blanks closed tail tail'

namespace Scanner

/-- With other gaps the same lexemes are delivered, from any place. The text may also follow
    whatever comes before, unless the first gap is closed. -/
theorem Delivers.respaced {s s' : Scanner} {tokens : List Token} {gaps : List (List Char)}
    {last : List Char} (h : Delivers s tokens s') (spacing : Spacing tokens gaps)
    (blanks : IsBlanks last) :
    (∀ l, ∃ tokens' l',
      Delivers ⟨spaced gaps (tokens.map Token.chars) last, l⟩ tokens' ⟨last, l'⟩ ∧
        tokens'.map Token.lexeme = tokens.map Token.lexeme) ∧
    ((∀ t, tokens.head? = some t → s.location.position < t.start.position →
        gaps.head? ≠ some []) →
      Confined s.rest (spaced gaps (tokens.map Token.chars) last)) := by
  -- Whether a token ends where it did depends on all that comes behind it, so what follows is
  -- judged along with the tokens, from the last one to the first.
  induction h generalizing gaps with
  | done s =>
    have none : gaps = [] := List.length_eq_zero_iff.mp spacing.length_gaps
    subst none
    refine ⟨fun l => ⟨[], l, .done _, rfl⟩, fun _ => ?_⟩
    have confined := Confined.gap blanks fun _ => Confined.nil s.rest
    rw [List.append_nil] at confined
    exact confined
  | @cons s s' s'' t tokens step _ ih =>
    cases gaps with
    | nil => cases spacing.length_gaps
    | cons gap' gaps =>
      obtain ⟨gap, p, rest, blanks, first, value, start, stop⟩ := step.token_inv
      obtain ⟨delivered, confined⟩ := ih spacing.others
      have place : s'.location = t.finish := by
        rw [stop, Location.advance_eq_past, Token.finish, Token.chars]
      have behind := confined fun u next lt => by
        rw [List.head?_eq_getElem?] at next ⊢
        rw [place] at lt
        exact spacing.apart 0 t u rfl next lt
      have blanks' : IsBlanks gap' := spacing.blank gap' List.mem_cons_self
      rw [List.map_cons, spaced_cons]
      refine ⟨fun l => ?_, fun opened => ?_⟩
      · obtain ⟨tokens', l', delivered, same⟩ := delivered ((l.advance gap').advance t.chars)
        have step' := Step.token (a := ⟨t.kind, t.value⟩) (l := l) blanks' (first.confined behind)
          value
        refine ⟨_, l', .cons step' delivered, ?_⟩
        rw [List.map_cons, List.map_cons, same]
        simp only [Token.lexeme, Token.chars, String.ofList_toList]
      · refine .gap blanks' fun closed => ?_
        have adjacent : ¬s.location.position < t.start.position := fun lt =>
          opened t rfl lt (congrArg some closed)
        have none : gap = [] := by
          rw [start, Location.position_advance] at adjacent
          exact List.length_eq_zero_iff.mp (by omega)
        rw [rest, none]
        exact behind.append first.known.ne_nil

end Scanner

theorem scan_spaced {source : String} {tokens : List Token} {gaps : List (List Char)}
    {last : List Char} (h : scan source = .ok tokens) (spacing : Spacing tokens gaps)
    (blanks : IsBlanks last) : ∃ tokens',
      scan (String.ofList (spaced gaps (tokens.map Token.chars) last)) = .ok tokens' ∧
        tokens'.map Token.lexeme = tokens.map Token.lexeme := by
  obtain ⟨s, s', delivered, -⟩ := scan_eq_ok_iff.mp h
  obtain ⟨tokens', l, delivered', same⟩ := (delivered.respaced spacing blanks).1 .start
  have start : Scanner.ofSource (String.ofList (spaced gaps (tokens.map Token.chars) last)) =
      ⟨spaced gaps (tokens.map Token.chars) last, .start⟩ := by
    rw [Scanner.ofSource, String.toList_ofList]
  rw [← start] at delivered'
  exact ⟨tokens', scan_eq_ok_iff.mpr ⟨_, _, delivered', .finish blanks⟩, same⟩

end PipeExpr
