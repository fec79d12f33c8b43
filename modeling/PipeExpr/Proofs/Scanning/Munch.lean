import PipeExpr.Proofs.Scanning.Lexemes

/-!
# Maximal munch

The texts of white space and of each pattern are given here as languages, without saying how far a
match reaches. At the head of a source the first kind that has a text there takes its longest one,
and no other kind has a longer one. The patterns find just this text.
-/

set_option autoImplicit false

namespace PipeExpr

def IsBlanks (text : List Char) : Prop :=
  ∀ c ∈ text, Text.isBlank c = true

instance (text : List Char) : Decidable (IsBlanks text) :=
  decidable_of_iff (text.all Text.isBlank = true) List.all_eq_true

structure IsDigits (text : List Char) : Prop where
  ne_nil : text ≠ []
  inside : ∀ c ∈ text, Text.isDigit c = true

inductive Pattern.Matches : Pattern → List Char → Prop
  | symbol {c : Char} : isStructural c = true → Matches .symbol [c]
  | decimal {whole fraction : List Char} :
      IsDigits whole → IsDigits fraction → Matches .decimal (whole ++ '.' :: fraction)
  | integer {digits : List Char} : IsDigits digits → Matches .integer digits
  | quotation {body : List Char} : QuotedBody body → Matches .quotation ('"' :: (body ++ ['"']))
  | word {c : Char} {cs : List Char} :
      isWordStart c = true → (∀ d ∈ cs, isWordPart d = true) → Matches .word (c :: cs)
  | root : Matches .root ['@']

/-- What a piece of a source is: white space, or a lexeme that follows a pattern. -/
inductive PieceKind where
  | blank
  | lexeme (p : Pattern)
deriving DecidableEq

namespace PieceKind

def all : List PieceKind :=
  .blank :: Pattern.all.map .lexeme

def before (kind : PieceKind) : List PieceKind :=
  all.takeWhile (· ≠ kind)

inductive Matches : PieceKind → List Char → Prop
  | blank {text : List Char} : text ≠ [] → IsBlanks text → Matches .blank text
  | lexeme {p : Pattern} {text : List Char} : p.Matches text → Matches (.lexeme p) text

end PieceKind

/-- Of all pieces at the head of `cs`, whatever their kind, none is longer than `text`. -/
structure LongestMatch (cs text : List Char) : Prop where
  isPrefix : text <+: cs
  known : ∃ kind : PieceKind, kind.Matches text
  longest : ∀ (kind : PieceKind) (other : List Char), kind.Matches other → other <+: cs →
    other.length ≤ text.length

/-- `kind` is the first of all kinds that has a piece at the head of `cs`, and `text` is the longest
    of its pieces there. -/
structure FirstMatch (cs text : List Char) (kind : PieceKind) : Prop where
  isPrefix : text <+: cs
  known : kind.Matches text
  longest : ∀ other : List Char, kind.Matches other → other <+: cs → other.length ≤ text.length
  first : ∀ earlier ∈ kind.before, ∀ other : List Char, earlier.Matches other → ¬other <+: cs

variable {p : Pattern} {kind : PieceKind} {c : Char} {cs text rest : List Char} {n : Nat}

theorem Pattern.Matches.ne_nil (h : p.Matches text) : text ≠ [] := by
  cases h with
  | integer digits => exact digits.ne_nil
  | decimal => simp
  | symbol | quotation | word | root => exact List.cons_ne_nil _ _

theorem PieceKind.Matches.ne_nil (h : kind.Matches text) : text ≠ [] := by
  cases h with
  | blank nonempty => exact nonempty
  | lexeme h => exact h.ne_nil

def PieceKind.ofHead? (c : Char) : Option PieceKind :=
  if Text.isBlank c then some .blank
  else if isStructural c then some (.lexeme .symbol)
  else if Text.isDigit c then some (.lexeme .integer)
  else if c = '"' then some (.lexeme .quotation)
  else if isWordStart c then some (.lexeme .word)
  else if c = '@' then some (.lexeme .root)
  else none

theorem PieceKind.ofHead?_of_isDigit (h : Text.isDigit c = true) :
    ofHead? c = some (.lexeme .integer) := by
  simp only [ofHead?, isBlank_of_isDigit h, isStructural_eq_false h rfl, h, Bool.false_eq_true,
    if_false, if_true]

theorem Pattern.Matches.ofHead? (h : p.Matches (c :: cs)) : PieceKind.ofHead? c =
    some (.lexeme (if p = .decimal then .integer else p)) := by
  generalize eq : c :: cs = text at h
  cases h with
  | symbol structural =>
    cases eq
    simp only [PieceKind.ofHead?, isBlank_of_isStructural structural, structural,
      Bool.false_eq_true, if_false, if_true]
    rfl
  | @decimal whole fraction digits =>
    obtain ⟨d, ds, rfl⟩ := List.exists_cons_of_ne_nil digits.ne_nil
    cases eq
    exact PieceKind.ofHead?_of_isDigit (digits.inside c List.mem_cons_self)
  | integer digits =>
    cases eq
    exact PieceKind.ofHead?_of_isDigit (digits.inside c List.mem_cons_self)
  | quotation =>
    cases eq
    decide
  | word start =>
    cases eq
    have noMark : c ≠ '"' := by
      rintro rfl
      cases start
    have noSymbol : isStructural c = false := isStructural_eq_false start rfl
    simp only [PieceKind.ofHead?, isBlank_of_isWordStart start, noSymbol,
      isDigit_of_isWordStart start, noMark, start, Bool.false_eq_true, if_false, if_true]
    rfl
  | root =>
    cases eq
    decide

theorem PieceKind.Matches.ofHead? (h : kind.Matches (c :: cs)) : PieceKind.ofHead? c =
    some (if kind = .lexeme .decimal then .lexeme .integer else kind) := by
  cases h with
  | blank _ blanks =>
    have isBlank := blanks c List.mem_cons_self
    simp [PieceKind.ofHead?, isBlank]
  | @lexeme p _ h =>
    rw [h.ofHead?]
    by_cases decimal : p = .decimal <;> simp [decimal]

/-- Two pieces at one place are of one kind, or they are numerals. -/
theorem PieceKind.Matches.eq_or_numeral {kind' : PieceKind} {text' : List Char}
    (h : kind.Matches text) (h' : kind'.Matches text') (isPrefix : text <+: cs)
    (isPrefix' : text' <+: cs) : kind = kind' ∨
      (kind = .lexeme .decimal ∧ kind' = .lexeme .integer) ∨
      (kind = .lexeme .integer ∧ kind' = .lexeme .decimal) := by
  obtain ⟨c, text, rfl⟩ := List.exists_cons_of_ne_nil h.ne_nil
  obtain ⟨c', text', rfl⟩ := List.exists_cons_of_ne_nil h'.ne_nil
  obtain ⟨rest, rfl⟩ := isPrefix
  obtain ⟨rfl, -⟩ := List.cons_prefix_cons.mp isPrefix'
  have same := h.ofHead?.symm.trans h'.ofHead?
  by_cases decimal : kind = .lexeme .decimal <;> by_cases decimal' : kind' = .lexeme .decimal <;>
    simp_all

theorem isPrefix_takeWhile {q : Char → Bool} (inside : ∀ c ∈ text, q c = true)
    (isPrefix : text <+: cs) : text <+: cs.takeWhile q := by
  obtain ⟨rest, rfl⟩ := isPrefix
  rw [List.takeWhile_append_of_pos inside]
  exact List.prefix_append ..

theorem take_length_takeWhile (q : Char → Bool) (cs : List Char) :
    cs.take (cs.takeWhile q).length = cs.takeWhile q :=
  (List.prefix_iff_eq_take.mp (List.takeWhile_prefix q)).symm

theorem isDigits_takeWhile (some : digitRun cs ≠ 0) : IsDigits (cs.takeWhile Text.isDigit) :=
  ⟨mt List.length_eq_zero_iff.mpr some, List.all_eq_true.mp List.all_takeWhile⟩

theorem IsDigits.length_le (digits : IsDigits text) (isPrefix : text <+: cs) :
    0 < text.length ∧ text.length ≤ digitRun cs :=
  ⟨List.length_pos_iff.mpr digits.ne_nil, (isPrefix_takeWhile digits.inside isPrefix).length_le⟩

namespace Pattern

theorem matches_of_length? (h : p.length? cs = some n) : p.Matches (cs.take n) := by
  unfold length? at h
  split at h
  case h_1 c rest =>
    split at h
    case isTrue structural =>
      cases h
      exact .symbol structural
    case isFalse => cases h
  case h_2 =>
    simp only at h
    split at h
    case h_1 rest behind =>
      split at h
      case isTrue => cases h
      case isFalse digits =>
        cases h
        obtain ⟨whole, fraction⟩ := not_or.mp digits
        have parts : cs = cs.takeWhile Text.isDigit ++ '.' :: rest := by
          conv_lhs => rw [← List.take_append_drop (digitRun cs) cs, behind]
          rw [digitRun, take_length_takeWhile]
        have taken : cs.take (digitRun cs + 1 + digitRun rest) =
            cs.takeWhile Text.isDigit ++ '.' :: rest.takeWhile Text.isDigit := by
          generalize run : cs.takeWhile Text.isDigit = digits at parts
          rw [digitRun, run, parts, Nat.add_assoc, List.take_length_add_append, Nat.add_comm 1,
            digitRun, List.take_succ_cons, take_length_takeWhile]
        rw [taken]
        exact .decimal (isDigits_takeWhile whole) (isDigits_takeWhile fraction)
    case h_2 => cases h
  case h_3 =>
    split at h
    case isTrue => cases h
    case isFalse some =>
      cases h
      rw [digitRun, take_length_takeWhile]
      exact .integer (isDigits_takeWhile some)
  case h_4 rest =>
    obtain ⟨body, rest, rfl, valid, rfl⟩ := body_of_closingQuote? h
    have taken : (body ++ '"' :: rest).take (body.length + 1) = body ++ ['"'] :=
      List.take_length_add_append 1
    rw [Nat.add_comm 1, Nat.add_right_comm, List.take_succ_cons, taken]
    exact .quotation valid
  case h_5 c rest =>
    split at h
    case isTrue start =>
      cases h
      rw [List.take_succ_cons, take_length_takeWhile]
      exact .word start (List.all_eq_true.mp List.all_takeWhile)
    case isFalse => cases h
  case h_6 rest =>
    cases h
    exact .root
  case h_7 => cases h

theorem Matches.length? (h : p.Matches text) (isPrefix : text <+: cs) :
    ∃ n, p.length? cs = some n ∧ text.length ≤ n := by
  cases h with
  | @symbol c structural =>
    obtain ⟨rest, rfl⟩ := isPrefix
    exact ⟨1, by simp [Pattern.length?, structural], Nat.le_refl 1⟩
  | @decimal whole fraction digits digits' =>
    obtain ⟨rest, rfl⟩ := isPrefix
    have point : Stops Text.isDigit ('.' :: (fraction ++ rest)) := by
      rintro c ⟨⟩
      decide
    have run : digitRun (whole ++ '.' :: (fraction ++ rest)) = whole.length := by
      rw [digitRun, takeWhile_stops digits.inside point]
    have wholeLength : whole.length ≠ 0 := mt List.length_eq_zero_iff.mp digits.ne_nil
    obtain ⟨positive, le⟩ := digits'.length_le (List.prefix_append fraction rest)
    refine ⟨whole.length + 1 + digitRun (fraction ++ rest), ?_, ?_⟩
    · rw [List.append_assoc, List.cons_append]
      simp only [Pattern.length?, run, List.drop_left, wholeLength, false_or,
        Nat.ne_of_gt (Nat.lt_of_lt_of_le positive le), if_false]
    · rw [List.length_append, List.length_cons]
      omega
  | integer digits =>
    obtain ⟨positive, le⟩ := digits.length_le isPrefix
    refine ⟨digitRun cs, ?_, le⟩
    simp only [Pattern.length?, Nat.ne_of_gt (Nat.lt_of_lt_of_le positive le), if_false]
  | @quotation body valid =>
    obtain ⟨rest, rfl⟩ := isPrefix
    refine ⟨1 + body.length + 1, ?_, ?_⟩
    · rw [List.cons_append, List.append_assoc]
      exact closingQuote?_body valid rest 1
    · simp only [List.length_cons, List.length_append, List.length_nil]
      omega
  | @word c text start inside =>
    obtain ⟨rest, rfl⟩ := isPrefix
    have le := (isPrefix_takeWhile inside (List.prefix_append text rest)).length_le
    exact ⟨_, by simp [Pattern.length?, start], Nat.succ_le_succ le⟩
  | root =>
    obtain ⟨rest, rfl⟩ := isPrefix
    exact ⟨1, rfl, Nat.le_refl 1⟩

theorem length?_eq_none_iff :
    p.length? cs = none ↔ ∀ text, p.Matches text → ¬text <+: cs := by
  constructor
  · intro none text h isPrefix
    obtain ⟨n, length, -⟩ := h.length? isPrefix
    rw [none] at length
    cases length
  · intro h
    cases length : p.length? cs with
    | none => rfl
    | some n => exact absurd (List.take_prefix n cs) (h _ (matches_of_length? length))

end Pattern

theorem QuotedBody.length_le {body body' : List Char} (h : QuotedBody body)
    (h' : QuotedBody body') (isPrefix : body ++ ['"'] <+: body' ++ ['"']) :
    body'.length ≤ body.length := by
  obtain ⟨rest, eq⟩ := isPrefix
  have closing := closingQuote?_body h' [] 0
  rw [← eq, List.append_assoc, List.singleton_append, closingQuote?_body h] at closing
  have length := Option.some.inj closing
  omega

theorem Pattern.Matches.integer_le {other : List Char} (h : Matches .decimal text)
    (h' : Matches .integer other) (isPrefix : text <+: cs) (isPrefix' : other <+: cs) :
    other.length ≤ text.length := by
  cases h' with
  | integer digits' =>
    cases h with
    | @decimal whole fraction digits _ =>
      obtain ⟨rest, rfl⟩ := isPrefix
      have point : Stops Text.isDigit ('.' :: fraction ++ rest) := by
        rintro c ⟨⟩
        decide
      rw [List.append_assoc] at isPrefix'
      have le := (isPrefix_takeWhile digits'.inside isPrefix').length_le
      rw [takeWhile_stops digits.inside point] at le
      rw [List.length_append]
      omega

theorem FirstMatch.longestMatch (h : FirstMatch cs text kind) : LongestMatch cs text := by
  refine ⟨h.isPrefix, ⟨kind, h.known⟩, ?_⟩
  intro kind' other known isPrefix
  rcases h.known.eq_or_numeral known h.isPrefix isPrefix with rfl | ⟨rfl, rfl⟩ | ⟨rfl, rfl⟩
  · exact h.longest other known isPrefix
  · cases known with
    | lexeme integer =>
      cases h.known with
      | lexeme decimal => exact decimal.integer_le integer h.isPrefix isPrefix
  · have earlier : PieceKind.lexeme .decimal ∈ (PieceKind.lexeme .integer).before := by decide
    exact absurd isPrefix (h.first _ earlier other known)

namespace Pattern

theorem before_lexeme (p : Pattern) : (PieceKind.lexeme p).before =
    .blank :: (all.takeWhile (· ≠ p)).map .lexeme := by
  cases p <;> rfl

theorem takeWhile_all {earlier later : List Pattern} (order : all = earlier ++ p :: later) :
    all.takeWhile (· ≠ p) = earlier := by
  have nodup : all.Nodup := by decide
  rw [order] at nodup ⊢
  have different : ∀ q ∈ earlier, decide (q ≠ p) = true := by
    intro q mem
    rw [decide_eq_true_eq]
    exact (List.nodup_append.mp nodup).2.2 q mem p List.mem_cons_self
  rw [List.takeWhile_append_of_pos different, List.takeWhile_cons_of_neg (by simp),
    List.append_nil]

theorem first?_eq_some_iff : first? cs = some (p, n) ↔
    p.length? cs = some n ∧ ∀ q ∈ all.takeWhile (· ≠ p), q.length? cs = none := by
  constructor
  · intro h
    obtain ⟨earlier, q, later, order, found, none⟩ := List.findSome?_eq_some_iff.mp h
    obtain ⟨m, length, eq⟩ := Option.map_eq_some_iff.mp found
    cases eq
    rw [takeWhile_all order]
    exact ⟨length, fun q mem => Option.map_eq_none_iff.mp (none q mem)⟩
  · rintro ⟨length, none⟩
    have mem : p ∈ all := by cases p <;> decide
    obtain ⟨earlier, later, order⟩ := List.append_of_mem mem
    rw [takeWhile_all order] at none
    refine List.findSome?_eq_some_iff.mpr ⟨earlier, p, later, order, ?_, fun q mem => ?_⟩
    · rw [length]
      rfl
    · rw [none q mem]
      rfl

/-- The first pattern and its length are the first match, unless white space stands there. -/
theorem first?_append_iff : first? (text ++ rest) = some (p, text.length) ↔
    FirstMatch (text ++ rest) text (.lexeme p) := by
  have isPrefix : text <+: text ++ rest := List.prefix_append ..
  rw [first?_eq_some_iff]
  constructor
  · rintro ⟨length, none⟩
    have known := matches_of_length? length
    rw [List.take_left] at known
    refine ⟨isPrefix, .lexeme known, ?_, ?_⟩
    · intro other known' isPrefix'
      cases known' with
      | lexeme known' =>
        obtain ⟨n, length', le⟩ := known'.length? isPrefix'
        rw [length] at length'
        cases length'
        exact le
    · intro earlier mem other known' isPrefix'
      rw [before_lexeme] at mem
      rcases List.mem_cons.mp mem with rfl | mem
      · rcases known'.eq_or_numeral (.lexeme known) isPrefix' isPrefix with same | ⟨same, -⟩ |
          ⟨same, -⟩ <;> cases same
      · obtain ⟨q, isEarlier, rfl⟩ := List.mem_map.mp mem
        cases known' with
        | lexeme known' => exact length?_eq_none_iff.mp (none q isEarlier) other known' isPrefix'
  · intro h
    cases h.known with
    | lexeme known =>
      obtain ⟨n, length, le⟩ := known.length? isPrefix
      have taken := h.longest _ (.lexeme (matches_of_length? length)) (List.take_prefix n _)
      rw [List.length_take_of_le (length?_bounds length).2] at taken
      obtain rfl := Nat.le_antisymm le taken
      refine ⟨length, fun q mem => length?_eq_none_iff.mpr fun other known' => ?_⟩
      have earlier : PieceKind.lexeme q ∈ (PieceKind.lexeme p).before := by
        rw [before_lexeme]
        exact List.mem_cons_of_mem _ (List.mem_map_of_mem mem)
      exact h.first _ earlier other (.lexeme known')

theorem first?_eq_none_iff : first? cs = none ↔
    ∀ (p : Pattern) (text : List Char), p.Matches text → ¬text <+: cs := by
  have all : ∀ p : Pattern, p ∈ all := by
    intro p
    cases p <;> decide
  simp only [first?, List.findSome?_eq_none_iff, Option.map_eq_none_iff, length?_eq_none_iff, all,
    true_imp_iff]

end Pattern

end PipeExpr
