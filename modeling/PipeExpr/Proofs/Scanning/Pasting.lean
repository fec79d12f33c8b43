import PipeExpr.Proofs.Scanning.Respacing
import PipeExpr.Proofs.Writing.Spelling

set_option autoImplicit false

namespace PipeExpr

variable {text rest back : List Char} {p : Pattern} {c : Char}

theorem Pattern.Matches.last (h : p.Matches (text ++ [c])) (nonempty : text ≠ []) :
    c = '"' ∨ Text.isDigit c = true ∨ isWordPart c = true := by
  generalize eq : text ++ [c] = whole at h
  cases h with
  | symbol => simp [List.append_eq_singleton_iff, nonempty] at eq
  | root => simp [List.append_eq_singleton_iff, nonempty] at eq
  | integer digits => exact .inr (.inl (digits.inside c (by simp [← eq])))
  | @decimal whole fraction _ digits =>
    have last : c ∈ fraction := by
      have same := congrArg List.getLast? eq
      rw [List.getLast?_concat, List.getLast?_append_of_ne_nil _ (List.cons_ne_nil _ _),
        ← List.singleton_append, List.getLast?_append_of_ne_nil _ digits.ne_nil] at same
      exact List.mem_of_getLast? same.symm
    exact .inr (.inl (digits.inside c last))
  | quotation body =>
    rw [← List.cons_append] at eq
    exact .inl (List.singleton_inj.mp (List.append_inj' eq rfl).2)
  | word start inside =>
    obtain ⟨b, text, rfl⟩ := List.exists_cons_of_ne_nil nonempty
    cases eq
    exact .inr (.inr (inside c (by simp)))

theorem Delimited.not_last (h : Delimited (c :: rest)) :
    ¬(c = '"' ∨ Text.isDigit c = true ∨ isWordPart c = true) := by
  have digit : Stops Text.isDigit (c :: rest) := h.stops rfl
  have part : Stops isWordPart (c :: rest) := h.stops rfl
  rintro (rfl | isDigit | isPart)
  · exact absurd (h '"' rfl) (by decide)
  · rw [digit c rfl] at isDigit
    cases isDigit
  · rw [part c rfl] at isPart
    cases isPart

theorem FirstMatch.delimited (h : FirstMatch (text ++ rest) text (.lexeme p))
    (delimited : Delimited back) :
    FirstMatch (text ++ (rest ++ back)) text (.lexeme p) := by
  apply h.of_no_extension
  intro short q extension begins fits
  cases rest with
  | nil =>
    rw [List.nil_append] at begins
    obtain ⟨others, rfl⟩ := begins
    cases extension with
    | char => exact absurd (fits.last h.known.ne_nil) delimited.not_last
    | fraction => exact absurd rfl delimited.noPoint
  | cons c rest =>
    cases extension with
    | char =>
      rw [List.cons_append, List.cons_prefix_cons] at begins
      exact List.cons_prefix_cons.mpr ⟨begins.1, List.nil_prefix⟩
    | @fraction d digit =>
      rw [List.cons_append, List.cons_prefix_cons] at begins
      obtain ⟨point, begins⟩ := begins
      refine List.cons_prefix_cons.mpr ⟨point, ?_⟩
      cases rest with
      | nil =>
        obtain ⟨others, rfl⟩ := begins
        exact absurd (.inr (.inl digit)) delimited.not_last
      | cons e rest =>
        rw [List.cons_append, List.cons_prefix_cons] at begins
        exact List.cons_prefix_cons.mpr ⟨begins.1, List.nil_prefix⟩

/-- What is scanned by itself is scanned alike in front of a delimiter. -/
theorem Lexes.spells {as : List Terminal} (h : Lexes text as) : Spells text as := by
  induction h with
  | nil => exact .nil
  | blank isBlank _ ih =>
    intro rest bs delimited lexes
    exact .blank isBlank (ih rest bs delimited lexes)
  | @lexeme c text rest p a as notBlank first value _ ih =>
    intro back bs delimited lexes
    have alone : FirstMatch (c :: text ++ rest) (c :: text) (.lexeme p) :=
      Pattern.first?_append_iff.mp first
    have whole := Pattern.first?_append_iff.mpr (alone.delimited delimited)
    rw [List.append_assoc]
    exact .lexeme notBlank whole value (ih back bs delimited lexes)

end PipeExpr
