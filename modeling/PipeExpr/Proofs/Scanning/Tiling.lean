import PipeExpr.Proofs.Scanning.Delivery

set_option autoImplicit false

namespace PipeExpr

theorem Location.position_advance (l : Location) (text : List Char) :
    (l.advance text).position = l.position + text.length := by
  rw [advance_eq_past, past]
  split <;> rfl

def Token.chars (t : Token) : List Char :=
  t.text.toList

/-- A gap and a text in turn, and `last` behind the last text. -/
def spaced (gaps texts : List (List Char)) (last : List Char) : List Char :=
  (List.zipWith (· ++ ·) gaps texts).flatten ++ last

/-- The text of the token is not empty and stands at its position, and it is the longest match
    there as well as the first. -/
structure Munched (source : List Char) (t : Token) : Prop where
  ne_nil : t.chars ≠ []
  slice : (source.drop t.start.position).take t.chars.length = t.chars
  longest : LongestMatch (source.drop t.start.position) t.chars
  first : ∃ p, FirstMatch (source.drop t.start.position) t.chars (.lexeme p)

/-- Behind `front` the source goes on with the texts of the tokens in turn, with gaps of white space
    before them, and then with `rest`. -/
structure Tiled (front cs : List Char) (tokens : List Token) (gaps : List (List Char))
    (rest : List Char) : Prop where
  length_gaps : gaps.length = tokens.length
  blank : ∀ gap ∈ gaps, IsBlanks gap
  covered : cs = spaced gaps (tokens.map Token.chars) rest
  position : ∀ (i : Nat) (t : Token), tokens[i]? = some t → t.start.position =
    front.length + (gaps.take (i + 1)).flatten.length +
      ((tokens.map Token.chars).take i).flatten.length
  munched : ∀ t ∈ tokens, Munched (front ++ cs) t

theorem spaced_cons (gap text : List Char) (gaps texts : List (List Char)) (last : List Char) :
    spaced (gap :: gaps) (text :: texts) last = gap ++ (text ++ spaced gaps texts last) := by
  simp only [spaced, List.zipWith_cons_cons, List.flatten_cons, List.append_assoc]

theorem spaced_append (gaps texts : List (List Char)) (last rest : List Char) :
    spaced gaps texts (last ++ rest) = spaced gaps texts last ++ rest :=
  (List.append_assoc ..).symm

variable {front gap text rest last : List Char} {gaps : List (List Char)} {t : Token}
  {tokens : List Token} {p : Pattern} {s s' : Scanner}

theorem Tiled.nil (front rest : List Char) : Tiled front rest [] [] rest :=
  ⟨rfl, List.forall_mem_nil _, rfl, nofun, List.forall_mem_nil _⟩

theorem munched_of_first (here : t.start.position = front.length + gap.length)
    (first : FirstMatch (t.chars ++ rest) t.chars (.lexeme p)) :
    Munched (front ++ (gap ++ (t.chars ++ rest))) t := by
  have behind : (front ++ (gap ++ (t.chars ++ rest))).drop t.start.position = t.chars ++ rest := by
    rw [here, ← List.append_assoc, ← List.length_append, List.drop_left]
  have slice : (t.chars ++ rest).take t.chars.length = t.chars := List.take_left
  rw [← behind] at slice
  refine ⟨first.known.ne_nil, slice, ?_, p, ?_⟩ <;> rw [behind]
  · exact first.longestMatch
  · exact first

theorem Tiled.cons (blanks : IsBlanks gap)
    (here : t.start.position = front.length + gap.length)
    (first : FirstMatch (t.chars ++ rest) t.chars (.lexeme p))
    (tail : Tiled (front ++ (gap ++ t.chars)) rest tokens gaps last) :
    Tiled front (gap ++ (t.chars ++ rest)) (t :: tokens) (gap :: gaps) last where
  length_gaps := by rw [List.length_cons, tail.length_gaps, List.length_cons]
  blank := List.forall_mem_cons.mpr ⟨blanks, tail.blank⟩
  covered := by
    conv_lhs => rw [tail.covered]
    rw [List.map_cons, spaced_cons]
  position := by
    intro i u found
    cases i with
    | zero =>
      cases found
      simp [here]
    | succ i =>
      have position := tail.position i u found
      simp only [List.length_append] at position
      simp only [List.map_cons, List.take_succ_cons, List.flatten_cons, List.length_append]
      omega
  munched := by
    refine List.forall_mem_cons.mpr ⟨munched_of_first here first, ?_⟩
    have munched := tail.munched
    rw [List.append_assoc, List.append_assoc] at munched
    exact munched

namespace Scanner

theorem Step.token_inv (h : Step s (.token t) s') : ∃ gap p, s.rest = gap ++ (t.chars ++ s'.rest) ∧
    IsBlanks gap ∧ FirstMatch (t.chars ++ s'.rest) t.chars (.lexeme p) ∧
      p.read? t.chars = some (t.kind, t.value) ∧ t.start = s.location.advance gap ∧
        s'.location = t.start.advance t.chars := by
  cases h with
  | @token gap text rest l p a blanks first value =>
    simp only [Token.chars, String.toList_ofList]
    exact ⟨gap, p, rfl, blanks, first, value, rfl, trivial⟩

theorem Delivers.tiled (h : Delivers s tokens s') (here : s.location.position = front.length) :
    (∃ gaps, Tiled front s.rest tokens gaps s'.rest) ∧
      s'.location.position + s'.rest.length = front.length + s.rest.length := by
  -- `front` is all that lies before the scanner, so it grows by each gap and text.
  induction h generalizing front with
  | done s => exact ⟨⟨[], .nil front s.rest⟩, by rw [here]⟩
  | @cons s s' s'' t tokens step _ ih =>
    obtain ⟨gap, p, rest, blanks, first, -, start, stop⟩ := step.token_inv
    have place : t.start.position = front.length + gap.length := by
      rw [start, Location.position_advance, here]
    have behind : s'.location.position = (front ++ (gap ++ t.chars)).length := by
      rw [stop, Location.position_advance, place, List.length_append, List.length_append,
        Nat.add_assoc]
    obtain ⟨⟨gaps, tail⟩, total⟩ := ih behind
    rw [rest]
    refine ⟨⟨gap :: gaps, tail.cons blanks place first⟩, ?_⟩
    rw [total]
    simp only [List.length_append, Nat.add_assoc]

end Scanner

/-- At `rest` the scanner fails for this reason: nothing there begins a piece, or the longest match
    is a numeral, which is too large. -/
inductive Unscannable (rest : List Char) : ScanReason → Prop
  | unexpectedCharacter :
      (∀ (kind : PieceKind) (text : List Char), kind.Matches text → ¬text <+: rest) →
        Unscannable rest .unexpectedCharacter
  | outOfRange {p : Pattern} {text : List Char} :
      p = .decimal ∨ p = .integer → p.Matches text → LongestMatch rest text →
        p.read? text = none → Unscannable rest .outOfRange

theorem Pattern.numeral_of_read?_eq_none (none : p.read? text = none) :
    p = .decimal ∨ p = .integer := by
  cases p with
  | decimal => exact .inl rfl
  | integer => exact .inr rfl
  | word =>
    simp only [read?] at none
    split at none <;> cases none
  | symbol | quotation | root => cases none

theorem Scanner.Step.failure_inv {e : ScanError} (h : Step s (.failure e) s') :
    ∃ gap c rest, s.rest = gap ++ c :: rest ∧ IsBlanks gap ∧ e.location = s.location.advance gap ∧
      e.character = c.toString ∧ Unscannable (c :: rest) e.reason := by
  cases h with
  | @outOfRange gap text rest c l p blanks first value =>
    cases first.known with
    | lexeme known =>
      have numeral := Pattern.numeral_of_read?_eq_none value
      exact ⟨gap, c, text ++ rest, rfl, blanks, rfl, rfl,
        .outOfRange numeral known first.longestMatch value⟩
  | @unexpected gap rest c l blanks none =>
    exact ⟨gap, c, rest, rfl, blanks, rfl, rfl, .unexpectedCharacter none⟩

/-- Every scan tiles the source, up to its end or to the first failure. The patterns are tried in
    turn, but the first one that fits takes the longest piece of any kind. -/
theorem scan_maximal_munch (source : String) :
    (∀ (cs text : List Char) (kind : PieceKind), FirstMatch cs text kind → LongestMatch cs text) ∧
    match scan source with
    | .ok tokens => ∃ gaps last, Tiled [] source.toList tokens gaps last ∧ IsBlanks last
    | .error e => ∃ tokens gaps last c rest,
        Tiled [] source.toList tokens gaps (last ++ c :: rest) ∧ IsBlanks last ∧
          source.toList.take e.location.position = spaced gaps (tokens.map Token.chars) last ∧
            source.toList.drop e.location.position = c :: rest ∧
              e.character = c.toString ∧ Unscannable (c :: rest) e.reason := by
  refine ⟨fun _ _ _ => FirstMatch.longestMatch, ?_⟩
  have start : (Scanner.ofSource source).location.position = ([] : List Char).length := rfl
  cases scanned : scan source with
  | ok tokens =>
    obtain ⟨s, s', delivered, last⟩ := scan_eq_ok_iff.mp scanned
    obtain ⟨⟨gaps, tiled⟩, -⟩ := delivered.tiled start
    cases last with
    | finish blanks => exact ⟨gaps, _, tiled, blanks⟩
  | error e =>
    obtain ⟨tokens, s, s', delivered, failed⟩ := scan_eq_error_iff.mp scanned
    obtain ⟨last, c, rest, here, blanks, place, character, reason⟩ := failed.failure_inv
    obtain ⟨⟨gaps, tiled⟩, total⟩ := delivered.tiled start
    rw [here] at tiled total
    have parts := tiled.covered
    rw [spaced_append] at parts
    have position : e.location.position =
        (spaced gaps (tokens.map Token.chars) last).length := by
      have length := congrArg List.length parts
      simp only [Scanner.ofSource, List.length_append, List.length_nil] at total length ⊢
      rw [place, Location.position_advance]
      omega
    refine ⟨tokens, gaps, last, c, rest, tiled, blanks, ?_, ?_, character, reason⟩
    · change (Scanner.ofSource source).rest.take _ = _
      rw [parts, position, List.take_left]
    · change (Scanner.ofSource source).rest.drop _ = _
      rw [parts, position, List.drop_left]

end PipeExpr
