import PipeExpr.Proofs.Reading.Ends
import PipeExpr.Proofs.Scanning.Places

set_option autoImplicit false

namespace PipeExpr
open Scanner

def SourceError.location : SourceError → Location
  | scan e => e.location
  | read e => e.location

/-- What the error is about stands at its location: a character that cannot be scanned, a token that
    cannot be read, or the end of the source. -/
inductive SourceError.Shown (source : String) : SourceError → Prop
  | character {e : ScanError} {c : Char} :
      source.toList[e.location.position]? = some c → e.character = c.toString →
        Shown source (.scan e)
  | token {e : ReadError} {tokens : List Token} {t : Token} :
      PipeExpr.scan source = .ok tokens → t ∈ tokens → e.token = some t → e.location = t.start →
        Shown source (.read e)
  | finish {e : ReadError} :
      e.token = none → e.location.position = source.length → Shown source (.read e)

variable {source : String} {tokens : List Token}

theorem located_of_scan (h : scan source = .ok tokens) : ∀ t ∈ tokens, t.Located source.toList := by
  obtain ⟨s, s', delivered, -⟩ := scan_eq_ok_iff.mp h
  exact ((placed_ofSource source).delivers delivered).2

theorem scan_error_inv {e : ScanError} (h : scan source = .error e) :
    ∃ front c rest, source.toList = front ++ c :: rest ∧
      e.location = Location.start.advance front ∧ e.character = c.toString ∧
        Unscannable (c :: rest) e.reason := by
  obtain ⟨tokens, s, s', delivered, failed⟩ := scan_eq_error_iff.mp h
  obtain ⟨front, whole, here⟩ := ((placed_ofSource source).delivers delivered).1
  obtain ⟨gap, c, rest, parts, -, place, character, unscannable⟩ := failed.failure_inv
  refine ⟨front ++ gap, c, rest, ?_, ?_, character, unscannable⟩
  · rw [← whole, parts, List.append_assoc]
  · rw [place, here, Location.advance_append]

theorem scan_error_shown {e : ScanError} (h : scan source = .error e) :
    e.location.Within source.toList ∧ SourceError.Shown source (.scan e) := by
  obtain ⟨front, c, rest, whole, place, character, -⟩ := scan_error_inv h
  refine ⟨?_, .character (c := c) ?_ character⟩
  · rw [place, whole]
    exact Location.within_start_advance front (c :: rest)
  · rw [place, Location.position_start_advance, whole, List.getElem?_append_right (Nat.le_refl _),
      Nat.sub_self, List.getElem?_cons_zero]

theorem endOfInput_of_scan (h : scan source = .ok tokens) :
    endOfInput source tokens = Location.start.advance source.toList := by
  unfold endOfInput
  split
  case h_1 t last =>
    have empty : scan "" = .ok [] := rfl
    rw [empty] at h
    cases h
    cases last
  case h_2 => exact (Location.advance_eq_past _ _).symm

theorem ReadError.Placed.shown {e : ReadError} (h : e.Placed tokens (endOfInput source tokens))
    (scanned : scan source = .ok tokens) :
    e.location.Within source.toList ∧ SourceError.Shown source (.read e) := by
  cases h with
  | @atToken t reason mem =>
    exact ⟨(located_of_scan scanned t mem).within, .token scanned mem rfl rfl⟩
  | atEnd reason =>
    rw [endOfInput_of_scan scanned]
    refine ⟨?_, .finish rfl ?_⟩
    · have within := Location.within_start_advance source.toList []
      rw [List.append_nil] at within
      exact within
    · exact (Location.position_start_advance source.toList).trans String.length_toList

theorem readSourceBy_error {readAll : String → List Token → Except ReadError Expr}
    {e : SourceError} (h : readSourceBy readAll source = .error e) :
    (∃ error, scan source = .error error ∧ e = .scan error) ∨
      ∃ tokens error, scan source = .ok tokens ∧ readAll source tokens = .error error ∧
        e = .read error := by
  unfold readSourceBy at h
  cases scanned : scan source with
  | error error =>
    rw [scanned] at h
    cases h
    exact .inl ⟨error, rfl, rfl⟩
  | ok tokens =>
    cases outcome : readAll source tokens with
    | ok result => simp [scanned, outcome, Except.mapError] at h
    | error error =>
      simp only [scanned, outcome, Except.mapError, Except.error.injEq] at h
      exact .inr ⟨tokens, error, rfl, outcome, h.symm⟩

/-- Every error of reading a source, with or without a ceiling, tells its true position, line and
    column, and what it is about stands there. -/
theorem location_of_readSource_error {limits : Limits} {e : SourceError}
    (h : readSource limits source = .error e ∨
      ∃ ceiling, readSourceBelowCeiling limits source ceiling = .error e) :
    e.location.position ≤ source.length ∧
      e.location = .ofPosition source.toList e.location.position ∧ e.Shown source := by
  suffices shown : e.location.Within source.toList ∧ e.Shown source by
    rw [← String.length_toList]
    exact ⟨shown.1.1, shown.1.2, shown.2⟩
  rcases h with h | ⟨ceiling, h⟩ <;>
    rcases readSourceBy_error h with
      ⟨error, scanned, rfl⟩ | ⟨tokens, error, scanned, refused, rfl⟩
  · exact scan_error_shown scanned
  · exact (readTokens_error refused).shown scanned
  · exact scan_error_shown scanned
  · exact (readBelowCeiling_error refused).shown scanned

theorem location_of_readSource_unclosed :
    let e : SourceError := .read (.atEnd (.unclosedGroup 2) ⟨6, 2, 3⟩)
    readSource {} "f (\n1 " = .error e ∧ e.location = .ofPosition "f (\n1 ".toList 6 ∧
      e.Shown "f (\n1 " := by
  intro e
  have refused : readSource {} "f (\n1 " = .error e := by rfl
  exact ⟨refused, (location_of_readSource_error (.inl refused)).2⟩

end PipeExpr
