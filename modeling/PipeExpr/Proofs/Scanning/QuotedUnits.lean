import PipeExpr.Proofs.Scanning.Delivery
import PipeExpr.Proofs.Scanning.Lexemes

/-!
# Quotations unit by unit

What stands between double quotes is cut into units: characters that stand for themselves, and
backslashes with the character that each covers. Finding the closing quote and taking backslashes
out both go along these units.
-/

set_option autoImplicit false

namespace PipeExpr

inductive QuotedUnit where
  | plain (c : Char) (bare : c ≠ '"' ∧ c ≠ '\\')
  | covered (c : Char)
deriving DecidableEq

namespace QuotedUnit

def text : QuotedUnit → List Char
  | plain c _ => [c]
  | covered c => ['\\', c]

/-- A backslash before a double quote or before another backslash is dropped, any other is kept. -/
def meaning : QuotedUnit → List Char
  | plain c _ => [c]
  | covered c => if c = '"' ∨ c = '\\' then [c] else ['\\', c]

def quoted (us : List QuotedUnit) : List Char :=
  '"' :: (us.flatMap text ++ ['"'])

variable {us : List QuotedUnit}

theorem quotedBody_units (noFeed : covered '\n' ∉ us) : QuotedBody (us.flatMap text) := by
  induction us with
  | nil => exact .nil
  | cons u us ih =>
    rw [List.mem_cons, not_or] at noFeed
    have rest := ih noFeed.2
    rw [List.flatMap_cons]
    cases u with
    | plain c bare => exact .plain bare.1 bare.2 rest
    | covered c =>
      have notFeed : c ≠ '\n' := by
        rintro rfl
        exact noFeed.1 rfl
      exact .covered notFeed rest

theorem closingQuote?_plain {c : Char} (bare : c ≠ '"' ∧ c ≠ '\\') (count : Nat)
    (cs : List Char) : closingQuote? count (c :: cs) = closingQuote? (count + 1) cs := by
  rw [closingQuote?]
  · exact bare.1
  · intro d rest eq
    exact absurd eq bare.2

theorem closingQuote?_units (feed : covered '\n' ∈ us) (count : Nat) (rest : List Char) :
    closingQuote? count (us.flatMap text ++ rest) = none := by
  induction us generalizing count with
  | nil => cases feed
  | cons u us ih =>
    rw [List.flatMap_cons, List.append_assoc]
    cases u with
    | plain c bare =>
      have later : covered '\n' ∈ us := by simpa using feed
      exact (closingQuote?_plain bare count _).trans (ih later (count + 1))
    | covered c =>
      rw [text, List.cons_append, List.cons_append, List.nil_append, closingQuote?]
      by_cases eq : c = '\n'
      · exact if_pos eq
      · have later : covered '\n' ∈ us := by simpa [Ne.symm eq] using feed
        rw [if_neg eq]
        exact ih later (count + 2)

theorem first?_quoted (us : List QuotedUnit) (rest : List Char) :
    Pattern.first? (quoted us ++ rest) =
      if covered '\n' ∈ us then none else some (.quotation, (quoted us).length) := by
  rw [quoted, List.cons_append, List.append_assoc, List.singleton_append, Pattern.first?_quote]
  split
  case isTrue feed => rw [closingQuote?_units feed, Option.map_none]
  case isFalse noFeed =>
    rw [closingQuote?_body (quotedBody_units noFeed), List.length_cons, List.length_append,
      List.length_singleton, Option.map_some, Nat.add_comm 1]

theorem unescape_units (us : List QuotedUnit) :
    unescape (us.flatMap text) = us.flatMap meaning := by
  induction us with
  | nil => rfl
  | cons u us ih =>
    rw [List.flatMap_cons, List.flatMap_cons, ← ih]
    cases u with
    | plain c bare => exact unescape_cons bare.2 _
    | covered c =>
      rw [text, meaning, List.cons_append, List.cons_append, List.nil_append]
      by_cases special : c = '"' ∨ c = '\\'
      · rw [if_pos special]
        rcases special with rfl | rfl <;> rfl
      · obtain ⟨noQuote, noBackslash⟩ := not_or.mp special
        rw [if_neg special, unescape, unescape_cons noBackslash]
        · rfl
        · exact fun rest _ eq => noQuote (List.cons.inj eq).1
        · exact fun rest _ eq => noBackslash (List.cons.inj eq).1

theorem read?_quoted (us : List QuotedUnit) :
    Pattern.quotation.read? (quoted us) =
      some (.value, .string (String.ofList (us.flatMap meaning))) := by
  rw [quoted, Pattern.read?, List.drop_succ_cons, List.drop_zero, List.dropLast_concat,
    unescape_units]

/-- A scanner that stands on a quotation delivers its meaning, whatever follows. It stays where it
    is if a line feed is covered. -/
theorem next_quoted (us : List QuotedUnit) (rest : List Char) (l : Location) :
    Scanner.next ⟨quoted us ++ rest, l⟩ =
      if covered '\n' ∈ us then
        (.failure ⟨"\"", l, .unexpectedCharacter⟩, ⟨quoted us ++ rest, l⟩)
      else
        (.token ⟨.value, .string (String.ofList (us.flatMap meaning)), l,
          String.ofList (quoted us)⟩, ⟨rest, l.advance (quoted us)⟩) := by
  have notBlank : Text.isBlank '"' = false := by decide
  have first := first?_quoted us rest
  split
  case isTrue feed =>
    rw [if_pos feed] at first
    rw [quoted, List.cons_append] at first ⊢
    rw [Scanner.next_of_not_blank notBlank]
    simp only [Scanner.eventHere, first]
    rfl
  case isFalse noFeed =>
    rw [if_neg noFeed] at first
    exact Scanner.next_lexeme (a := ⟨.value, _⟩) notBlank first (read?_quoted us) l

/-- Between double quotes any units make one text, but for a covered line feed. Where one occurs
    there is no quotation, and the opening quote is refused. -/
theorem scan_quoted (us : List QuotedUnit) :
    scan (String.ofList (quoted us)) =
      if covered '\n' ∈ us then .error ⟨"\"", .start, .unexpectedCharacter⟩
      else .ok [⟨.value, .string (String.ofList (us.flatMap meaning)), .start,
        String.ofList (quoted us)⟩] := by
  have next := next_quoted us [] .start
  have start : Scanner.ofSource (String.ofList (quoted us)) = ⟨quoted us ++ [], .start⟩ := by
    rw [Scanner.ofSource, String.toList_ofList, List.append_nil]
  split
  case isTrue feed =>
    rw [if_pos feed] at next
    rw [scan_eq_error_iff, start]
    exact ⟨[], _, _, .done _, Scanner.next_eq_iff.mp next⟩
  case isFalse noFeed =>
    rw [if_neg noFeed] at next
    rw [scan_eq_ok_iff, start]
    exact ⟨_, _, .cons (Scanner.next_eq_iff.mp next) (.done _), .finish (List.forall_mem_nil _)⟩

theorem scan_covered_feed :
    String.ofList (quoted [covered '\n']) = "\"\\\n\"" ∧
      scan "\"\\\n\"" = .error ⟨"\"", .start, .unexpectedCharacter⟩ ∧
      scan "\"\n\"" = .ok [⟨.value, .string "\n", .start, "\"\n\""⟩] := by
  exact ⟨by rfl, by rfl, by rfl⟩

end QuotedUnit

end PipeExpr
