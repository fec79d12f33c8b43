import PipeExpr.Expr.Build
import PipeExpr.Proofs.Reading.Completeness
import PipeExpr.Proofs.Reading.ErrorLocation
import PipeExpr.Proofs.Reading.Messages
import PipeExpr.Proofs.Reading.Regularity
import PipeExpr.Reading.Outcome

/-!
# Reading never breaks

Whatever the tokens are and wherever reading begins, its outcome is a tree or an error with a place.
Only where an integer is too long to be written can the error not be told, and the tokens of a
source hold none. All that is built on the way, also before an error, could have been built by the
checked constructors, and only numerals are converted to numbers.
-/

set_option autoImplicit false

namespace PipeExpr

namespace Expr

/-- Every node of the tree is one that a checked constructor makes. -/
inductive Checked : Expr → Prop
  | ofScalar (v : Scalar) : Checked (ofScalar v)
  | array {es : List Expr} : (∀ e ∈ es, Checked e) → Checked (.array es)
  | object {ms : List (String × Expr)} : (∀ m ∈ ms, Checked m.2) → Checked (.object ms)
  | reference {path : List String} {e : Expr} : mkReference path = .ok e → Checked e
  | application {function e : Expr} {arguments : List Expr} :
      Checked function → (∀ a ∈ arguments, Checked a) →
        mkApplication function arguments = .ok e → Checked e
  | pipeline {stages : List Expr} {e : Expr} :
      (∀ stage ∈ stages, Checked stage) → mkPipeline stages = .ok e → Checked e

theorem checked_reference {path : List String} (nonempty : path ≠ []) :
    (Expr.reference path).Checked := by
  have made : mkReference path = .ok (.reference path) := by
    rw [mkReference, List.isEmpty_eq_false_iff.mpr nonempty]
    rfl
  exact .reference made

theorem checked_applied {function : Expr} {arguments : List Expr}
    (h : ∀ e ∈ function :: arguments, e.Checked) : (applied function arguments).Checked := by
  obtain ⟨checked, others⟩ := List.forall_mem_cons.mp h
  cases arguments with
  | nil => exact checked
  | cons argument arguments => exact .application checked others rfl

theorem checked_piped {first : Expr} {others : List Expr}
    (h : ∀ e ∈ first :: others, e.Checked) : (piped first others).Checked := by
  cases others with
  | nil => exact h first List.mem_cons_self
  | cons second others =>
    refine .pipeline h ?_
    rw [mkPipeline, if_neg (by simp)]
    rfl

end Expr

theorem checked_putMember {ms : List (String × Expr)} {key : String} {value : Expr}
    (h : ∀ m ∈ ms, m.2.Checked) (checked : value.Checked) :
    ∀ m ∈ putMember ms key value, m.2.Checked := by
  induction ms with
  | nil => exact List.forall_mem_singleton.mpr checked
  | cons m ms ih =>
    obtain ⟨first, others⟩ := List.forall_mem_cons.mp h
    rw [putMember]
    split
    · exact List.forall_mem_cons.mpr ⟨checked, others⟩
    · exact List.forall_mem_cons.mpr ⟨first, ih others⟩

structure Pending.Checked (p : Pending) : Prop where
  stages : ∀ e ∈ p.stages, e.Checked
  operands : ∀ e ∈ p.operands, e.Checked

def Frame.Checked : Frame → Prop
  | group _ outer => outer.Checked
  | array elements outer => (∀ e ∈ elements, e.Checked) ∧ outer.Checked
  | object ms _ outer => (∀ m ∈ ms, m.2.Checked) ∧ outer.Checked

def Focus.Checked : Focus → Prop
  | start _ => True
  | stage p => p.Checked
  | path p segments | segment p segments =>
    p.Checked ∧ (Expr.reference segments.reverse).Checked
  | operand p last => p.Checked ∧ last.Checked
  | key _ ms outer | colon ms _ outer => (∀ m ∈ ms, m.2.Checked) ∧ outer.Checked

structure ReadState.Checked (s : ReadState) : Prop where
  frames : ∀ frame ∈ s.frames, frame.Checked
  focus : s.focus.Checked

namespace Pending

variable {p : Pending} {last : Expr}

theorem Checked.push (h : p.Checked) (checked : last.Checked) : (p.push last).Checked :=
  ⟨h.stages, List.forall_mem_cons.mpr ⟨checked, h.operands⟩⟩

theorem checked_concat {before : List Expr} (h : ∀ e ∈ before, e.Checked)
    (checked : last.Checked) :
    ∃ first others, before.reverse ++ [last] = first :: others ∧
      ∀ e ∈ first :: others, e.Checked := by
  obtain ⟨first, others, parts⟩ :=
    List.exists_cons_of_ne_nil (List.concat_ne_nil last before.reverse)
  refine ⟨first, others, parts, ?_⟩
  rw [← parts]
  intro e mem
  rcases List.mem_append.mp mem with mem | mem
  · exact h e (List.mem_reverse.mp mem)
  · rw [List.mem_singleton.mp mem]
    exact checked

theorem Checked.application (h : p.Checked) (checked : last.Checked) :
    (p.application last).Checked := by
  obtain ⟨function, arguments, parts, all⟩ := checked_concat h.operands checked
  rw [application_eq parts]
  exact Expr.checked_applied all

theorem Checked.endStage (h : p.Checked) (checked : last.Checked) : (p.endStage last).Checked :=
  ⟨List.forall_mem_cons.mpr ⟨h.application checked, h.stages⟩, List.forall_mem_nil _⟩

theorem Checked.pipeline (h : p.Checked) (checked : last.Checked) :
    (p.pipeline last).Checked := by
  obtain ⟨first, others, parts, all⟩ := checked_concat h.stages (h.application checked)
  rw [pipeline_eq parts]
  exact Expr.checked_piped all

end Pending

namespace ReadContext

variable {ctx : ReadContext} {frames : List Frame} {p : Pending} {last : Expr}
  {s s' : ReadState} {t : Token} {ts : List Token}

theorem Settled.checked (settled : Settled frames p last s) (h : s.Checked) :
    (∀ frame ∈ frames, frame.Checked) ∧ p.Checked ∧ last.Checked := by
  cases settled with
  | operand => exact ⟨h.frames, h.focus⟩
  | path segments eq =>
    rw [eq]
    exact ⟨h.frames, h.focus⟩

theorem Due.checked (due : ctx.Due frames p s) (h : s.Checked) :
    (∀ frame ∈ frames, frame.Checked) ∧ p.Checked := by
  cases due with
  | start fresh => exact ⟨h.frames, List.forall_mem_nil _, List.forall_mem_nil _⟩
  | stage => exact ⟨h.frames, h.focus⟩
  | next settled _ =>
    obtain ⟨checkedFrames, pending, checked⟩ := settled.checked h
    exact ⟨checkedFrames, pending.push checked⟩

theorem Settled.checked_inside {frame : Frame} (settled : Settled (frame :: frames) p last s)
    (h : s.Checked) :
    frame.Checked ∧ (∀ frame ∈ frames, frame.Checked) ∧ (p.pipeline last).Checked := by
  obtain ⟨checkedFrames, pending, checked⟩ := settled.checked h
  obtain ⟨innermost, outer⟩ := List.forall_mem_cons.mp checkedFrames
  exact ⟨innermost, outer, pending.pipeline checked⟩

theorem Shift.checked (moved : ctx.Shift t s s') (h : s.Checked) : s'.Checked := by
  -- A token makes at most one new tree. All other trees are only moved, from the focus into a
  -- bracket or back.
  cases moved with
  | value due _ =>
    obtain ⟨outer, pending⟩ := due.checked h
    exact ⟨outer, pending, .ofScalar _⟩
  | name due _ =>
    obtain ⟨outer, pending⟩ := due.checked h
    exact ⟨outer, pending, Expr.checked_reference (List.cons_ne_nil _ _)⟩
  | openGroup due _ _ =>
    obtain ⟨outer, pending⟩ := due.checked h
    exact ⟨List.forall_mem_cons.mpr ⟨pending, outer⟩, trivial⟩
  | openArray due _ _ =>
    obtain ⟨outer, pending⟩ := due.checked h
    exact ⟨List.forall_mem_cons.mpr ⟨⟨List.forall_mem_nil _, pending⟩, outer⟩, trivial⟩
  | openObject due _ _ =>
    obtain ⟨outer, pending⟩ := due.checked h
    exact ⟨outer, List.forall_mem_nil _, pending⟩
  | emptyArray _ =>
    obtain ⟨innermost, outer⟩ := List.forall_mem_cons.mp h.frames
    exact ⟨outer, innermost.2, .array (List.forall_mem_nil _)⟩
  | emptyObject _ => exact ⟨h.frames, h.focus.2, .object (List.forall_mem_nil _)⟩
  | dot _ => exact ⟨h.frames, h.focus⟩
  | segment _ _ =>
    refine ⟨h.frames, h.focus.1, Expr.checked_reference ?_⟩
    rw [List.reverse_cons]
    exact List.concat_ne_nil _ _
  | pipe settled _ _ _ =>
    obtain ⟨outer, pending, checked⟩ := settled.checked h
    exact ⟨outer, pending.endStage checked⟩
  | closeGroup settled _ =>
    obtain ⟨innermost, outer, checked⟩ := settled.checked_inside h
    exact ⟨outer, innermost, checked⟩
  | nextElement settled _ =>
    obtain ⟨innermost, outer, checked⟩ := settled.checked_inside h
    have elements := List.forall_mem_cons.mpr ⟨checked, innermost.1⟩
    exact ⟨List.forall_mem_cons.mpr ⟨⟨elements, innermost.2⟩, outer⟩, trivial⟩
  | closeArray settled _ =>
    obtain ⟨innermost, outer, checked⟩ := settled.checked_inside h
    have elements := List.forall_mem_cons.mpr ⟨checked, innermost.1⟩
    exact ⟨outer, innermost.2, .array fun e mem => elements e (List.mem_reverse.mp mem)⟩
  | nextEntry settled _ =>
    obtain ⟨innermost, outer, checked⟩ := settled.checked_inside h
    exact ⟨outer, checked_putMember innermost.1 checked, innermost.2⟩
  | closeObject settled _ =>
    obtain ⟨innermost, outer, checked⟩ := settled.checked_inside h
    exact ⟨outer, innermost.2, .object (checked_putMember innermost.1 checked)⟩
  | key _ => exact ⟨h.frames, h.focus⟩
  | colon _ => exact ⟨List.forall_mem_cons.mpr ⟨h.focus, h.frames⟩, trivial⟩

theorem shifts_checked (h : s.Checked) (moved : ctx.shifts s ts = some s') : s'.Checked := by
  induction ts generalizing s with
  | nil =>
    cases moved
    exact h
  | cons t ts ih =>
    obtain ⟨next, first, rest⟩ := shifts_cons_iff.mp moved
    exact ih (first.checked h) rest

theorem checked_initial : ReadState.Checked {} :=
  ⟨List.forall_mem_nil _, trivial⟩

theorem read_ok {l : Location} {result : Expr} {rest : List Token}
    (h : ctx.read l ts = .ok (result, rest)) :
    ∃ before, before ≠ [] ∧ ts = before ++ rest ∧ result.Checked := by
  obtain ⟨before, s, p, last, rfl, moved, settled, eq⟩ := run_ok h
  refine ⟨before, ?_, rfl, ?_⟩
  · rintro rfl
    cases moved
    cases settled
  · obtain ⟨-, pending, checked⟩ := settled.checked (shifts_checked checked_initial moved)
    rcases eq with rfl | rfl
    · exact checked
    · exact pending.pipeline checked

end ReadContext

open ReadContext

/-- The token's text follows a pattern and was converted as such. So nothing but digits is converted
    to a number, and no integer is longer than a source may write it. -/
structure Token.Converted (t : Token) : Prop where
  known : ∃ p : Pattern, p.Matches t.chars ∧ p.read? t.chars = some (t.kind, t.value)
  short : ∀ n, t.value = .int n → IsShort n

theorem Terminal.Scanned.kind_of_int {kind : TokenKind} {n : Int}
    (h : Scanned ⟨kind, .int n⟩) : kind = .value := by
  cases h
  rfl

theorem Token.Converted.not_overlong {t : Token} (h : t.Converted) : ¬ t.Overlong := by
  rintro ⟨kind, n, value, -⟩
  obtain ⟨p, fits, read⟩ := h.known
  have scanned : t.terminal.Scanned := lexeme_scanned fits read
  rw [Token.terminal, value] at scanned
  exact kind scanned.kind_of_int

theorem Scanner.Step.converted {s s' : Scanner} {t : Token} (h : Step s (.token t) s') :
    t.Converted := by
  obtain ⟨gap, p, -, -, first, value, -⟩ := h.token_inv
  cases first.known with
  | lexeme known =>
    refine ⟨⟨p, known, value⟩, ?_⟩
    intro n eq
    rw [eq] at value
    exact Pattern.isShort_of_read? value

theorem Scanner.Delivers.converted {s s' : Scanner} {tokens : List Token}
    (h : Delivers s tokens s') : ∀ t ∈ tokens, t.Converted := by
  induction h with
  | done => exact List.forall_mem_nil _
  | cons step _ ih => exact List.forall_mem_cons.mpr ⟨step.converted, ih⟩

variable {limits : Limits} {source : String} {tokens : List Token} {result : Expr}

theorem converted_of_scan (h : scan source = .ok tokens) : ∀ t ∈ tokens, t.Converted := by
  obtain ⟨s, s', delivered, -⟩ := scan_eq_ok_iff.mp h
  exact delivered.converted

theorem scan_error_unscannable {e : ScanError} (h : scan source = .error e) :
    Unscannable (source.toList.drop e.location.position) e.reason := by
  obtain ⟨front, c, rest, whole, place, -, unscannable⟩ := scan_error_inv h
  rw [place, Location.position_start_advance, whole, List.drop_left]
  exact unscannable

/-- A checked tree, or an error at one of the tokens or at the end of the input. The error can be
    told, but for an integer in its token or a limit that is too long. -/
def SafeReading (limits : Limits) (tokens : List Token) (inputEnd : Location) :
    Except ReadError Expr → Prop
  | .ok result => result.Checked
  | .error e => e.Placed tokens inputEnd ∧ e.Told limits

/-- Either the source cannot be scanned, for nothing fits at the place of the error, or a numeral
    that is out of range. Or its tokens can be read as `SafeReading` says, and only a limit can be
    too long for the error to be told. -/
inductive ReadOutcome.Safe (limits : Limits) (source : String) : ReadOutcome → Prop
  | unscannable {e : ScanError} : PipeExpr.scan source = .error e →
      Unscannable (source.toList.drop e.location.position) e.reason →
        Safe limits source (.error (.scan e))
  | unreadable {tokens : List Token} {e : ReadError} : PipeExpr.scan source = .ok tokens →
      (∀ t ∈ tokens, t.Converted) → e.Placed tokens (endOfInput source tokens) →
        (e.message? = none → 10 ^ maxIntegerDigits ≤ limits.depth) →
          Safe limits source (.error (.read e))
  | tree {tokens : List Token} {result : Expr} : PipeExpr.scan source = .ok tokens →
      (∀ t ∈ tokens, t.Converted) → result.Checked → Safe limits source (.ok result)

theorem safe_readTokens (limits : Limits) (source : String) (tokens : List Token) :
    SafeReading limits tokens (endOfInput source tokens) (readTokens limits source tokens) := by
  cases outcome : readTokens limits source tokens with
  | error e => exact ⟨readTokens_error outcome, readTokens_told outcome⟩
  | ok result =>
    obtain ⟨s, moved, ends⟩ := readTokens_eq_ok_iff.mp outcome
    obtain ⟨p, last, settled, rfl⟩ := atEnd_eq_ok_iff.mp ends
    obtain ⟨-, pending, checked⟩ := settled.checked (shifts_checked checked_initial moved)
    exact pending.pipeline checked

theorem safe_readBelowCeiling (limits ceiling : Limits) (source : String) (tokens : List Token) :
    SafeReading limits tokens (endOfInput source tokens)
      (readBelowCeiling limits source tokens ceiling) := by
  cases outcome : readBelowCeiling limits source tokens ceiling with
  | error e => exact ⟨readBelowCeiling_error outcome, readBelowCeiling_told outcome⟩
  | ok result =>
    unfold readBelowCeiling at outcome
    split at outcome
    case isTrue => exact outcome ▸ safe_readTokens limits source tokens
    case isFalse =>
      split at outcome
      case h_1 => split at outcome <;> cases outcome
      case h_2 =>
        have safe := safe_readTokens ceiling source tokens
        rw [outcome] at safe
        exact safe

theorem ReadError.Placed.token_mem {e : ReadError} {l : Location} {t : Token}
    (h : e.Placed tokens l) (refused : e.token = some t) : t ∈ tokens := by
  cases h with
  | atToken reason mem =>
    cases refused
    exact mem
  | atEnd reason => cases refused

theorem safe_readSourceBy {readAll : String → List Token → Except ReadError Expr}
    (safe : ∀ tokens,
      SafeReading limits tokens (endOfInput source tokens) (readAll source tokens)) :
    ReadOutcome.Safe limits source (readSourceBy readAll source) := by
  unfold readSourceBy
  cases scanned : scan source with
  | error e => exact .unscannable scanned (scan_error_unscannable scanned)
  | ok tokens =>
    have converted := converted_of_scan scanned
    have safe := safe tokens
    simp only
    cases outcome : readAll source tokens with
    | error e =>
      rw [outcome] at safe
      obtain ⟨placed, told⟩ := safe
      refine .unreadable scanned converted placed fun untold => ?_
      rcases told untold with limit | ⟨t, refused, overlong⟩
      · exact limit
      · exact absurd overlong (converted t (placed.token_mem refused)).not_overlong
    | ok result =>
      rw [outcome] at safe
      exact .tree scanned converted safe

theorem readRule_ok {ctx : ReadContext} {position next : Nat}
    (h : readRule ctx source tokens position = .ok (result, next)) :
    position < next ∧ next ≤ tokens.length ∧ result.Checked := by
  unfold readRule at h
  cases outcome : ctx.read (endOfInput source tokens) (tokens.drop position) with
  | error e =>
    rw [outcome] at h
    cases h
  | ok parts =>
    rw [outcome] at h
    cases h
    obtain ⟨before, nonempty, split, checked⟩ := read_ok outcome
    have length := congrArg List.length split
    have positive := List.length_pos_iff.mpr nonempty
    rw [List.length_drop, List.length_append] at length
    exact ⟨by omega, by omega, checked⟩

theorem readRule_error {ctx : ReadContext} {position : Nat} {e : ReadError}
    (h : readRule ctx source tokens position = .error e) :
    e.Placed (tokens.drop position) (endOfInput source tokens) ∧ e.Told ctx.limits := by
  unfold readRule at h
  cases outcome : ctx.read (endOfInput source tokens) (tokens.drop position) with
  | error e' =>
    rw [outcome] at h
    cases h
    exact ⟨read_error outcome, read_told outcome⟩
  | ok parts =>
    rw [outcome] at h
    cases h

theorem Pending.ofStages_pipeline (p : Pending) (last : Expr) :
    Expr.ofStages (p.stages.reverse ++ [p.application last]) = .ok (p.pipeline last) := by
  obtain ⟨first, others, parts⟩ :=
    List.exists_cons_of_ne_nil (List.concat_ne_nil (p.application last) p.stages.reverse)
  rw [parts, Expr.ofStages, pipeline_eq parts]

/-- Reading a source or any list of tokens, or a rule from any token on and at any depth, ends in a
    checked tree or in an error with a place. A rule that is read takes tokens in, and no more than
    there are. An error can be told, but for an integer that is too long: the limit, or the value of
    a name or symbol made by hand. -/
theorem reading_is_safe (limits ceiling : Limits) (source : String) (tokens : List Token) :
    (∀ outcome ∈ [readSource limits source, readSourceBelowCeiling limits source ceiling],
      ReadOutcome.Safe limits source outcome ∧
        ReadOutcome.ofParts (ReadOutcome.expression? outcome) (ReadOutcome.error? outcome) =
          .ok outcome) ∧
    (∀ outcome ∈ [readTokens limits source tokens,
        readBelowCeiling limits source tokens ceiling],
      SafeReading limits tokens (endOfInput source tokens) outcome) ∧
    (∀ (rule : Rule) (depth position : Nat),
      (∀ before s, before <+: tokens.drop position →
        shifts ⟨rule, limits, depth⟩ {} before = some s → s.Checked) ∧
      match readRule ⟨rule, limits, depth⟩ source tokens position with
      | .ok (result, next) => position < next ∧ next ≤ tokens.length ∧ result.Checked
      | .error e => e.Placed (tokens.drop position) (endOfInput source tokens) ∧
          e.Told limits) ∧
    ∀ (p : Pending) (last : Expr),
      Expr.ofStages (p.stages.reverse ++ [p.application last]) = .ok (p.pipeline last) := by
  refine ⟨?_, ?_, ?_, Pending.ofStages_pipeline⟩
  · intro outcome mem
    refine ⟨?_, ReadOutcome.ofParts_parts outcome⟩
    rcases List.mem_pair.mp mem with rfl | rfl
    · exact safe_readSourceBy (safe_readTokens limits source)
    · exact safe_readSourceBy (safe_readBelowCeiling limits ceiling source)
  · intro outcome mem
    rcases List.mem_pair.mp mem with rfl | rfl
    · exact safe_readTokens limits source tokens
    · exact safe_readBelowCeiling limits ceiling source tokens
  · intro rule depth position
    refine ⟨fun before s _ moved => shifts_checked checked_initial moved, ?_⟩
    split
    case h_1 result next outcome => exact readRule_ok outcome
    case h_2 e outcome => exact readRule_error outcome

theorem reading_is_safe_unclosed :
    let opener : Token := ⟨.special, .string "(", .start, "("⟩
    let name : Token := ⟨.reference, .int 7, ⟨1, 1, 2⟩, "7"⟩
    let s : ReadState := ⟨[.group opener {}], .path {} ["7"]⟩
    let refused : ReadError := .atEnd (.unclosedGroup 0) ⟨2, 1, 3⟩
    readSource {} "(7" = .error (.read refused) ∧
      ReadOutcome.Safe {} "(7" (readSource {} "(7") ∧
      [opener, name] <+: [opener, name].drop 0 ∧
      shifts ⟨.primary, {}, 99⟩ {} [opener, name] = some s ∧ s.Checked ∧
      refused.Placed [opener, name] (endOfInput "(7" [opener, name]) ∧ refused.Told {} := by
  intro opener name s refused
  obtain ⟨sources, lists, rules, -⟩ := reading_is_safe {} usualCeiling "(7" [opener, name]
  have moved : shifts ⟨.primary, {}, 99⟩ {} [opener, name] = some s := by rfl
  have all : [opener, name] <+: [opener, name].drop 0 := List.prefix_refl _
  have outcome : readTokens {} "(7" [opener, name] = .error refused := by rfl
  have safe := lists _ List.mem_cons_self
  rw [outcome] at safe
  exact ⟨by rfl, (sources _ List.mem_cons_self).1, all, moved,
    (rules .primary 99 0).1 _ s all moved, safe⟩

theorem readRule_of_refused {ctx : ReadContext} {t : Token} {e : ReadError}
    (stop : ctx.step {} t = .fail e) (rest : List Token) :
    readRule ctx source (t :: rest) 0 = .error e := by
  simp only [readRule, List.drop_zero, ReadContext.read, run, stop]
  rfl

theorem step_stray {ctx : ReadContext} {t : Token} (stray : t.role = .stray) :
    ctx.step {} t = .fail (.atToken (.unexpectedToken t.value) t) := by
  simp only [step, start, begin?, stray]

theorem step_opener {ctx : ReadContext} {t : Token} (opens : t.role = .symbol .openArray)
    (full : ctx.limits.depth ≤ ctx.depth) :
    ctx.step {} t = .fail (.atToken (.tooDeep ctx.limits.depth) t) := by
  have tooDeep : ctx.limits.depth < ctx.depth + ([] : List Frame).length + 1 :=
    Nat.lt_succ_of_le full
  simp only [step, start, begin?, opens, nest, if_pos tooDeep]

theorem untold_of_long (limits : Limits) {n : Int} (long : 10 ^ maxIntegerDigits ≤ n.natAbs)
    (depth : 10 ^ maxIntegerDigits ≤ limits.depth) (opener : Token) :
    let name : Token := ⟨.reference, .int n, .start, ""⟩
    let stray : Token := ⟨.special, .int n, .start, ""⟩
    (ReadError.atToken .overlongName name).message? = none ∧
      (ReadError.atToken (.unexpectedToken (.int n)) stray).message? = none ∧
      (ReadError.atToken (.tooDeep limits.depth) opener).message? = none := by
  have unwritten : Scalar.text? (.int n) = none := Scalar.text?_eq_none_iff.mpr ⟨n, rfl, long⟩
  have unlimited : Text.numeral? limits.depth = none := Text.numeral?_eq_none_iff.mpr depth
  refine ⟨rfl, ?_, ?_⟩
  · simp only [ReadError.message?, ReadError.atToken, ReadReason.message?, unwritten,
      Option.map_none]
  · simp only [ReadError.message?, ReadError.atToken, ReadReason.message?, unlimited,
      Option.map_none]

/-- A name or a symbol of one digit too many leaves neither a tree nor an error that can be told,
    and neither does a bracket beyond a limit as long. -/
theorem reading_untold :
    let n : Int := (10 ^ maxIntegerDigits : Nat)
    let name : Token := ⟨.reference, .int n, .start, ""⟩
    let stray : Token := ⟨.special, .int n, .start, ""⟩
    let opener : Token := ⟨.special, .string "[", .start, "["⟩
    let limits : Limits := ⟨10 ^ maxIntegerDigits, Nat.one_le_pow _ _ (by decide)⟩
    let misnamed : ReadError := .atToken .overlongName name
    let unexpected : ReadError := .atToken (.unexpectedToken (.int n)) stray
    let tooDeep : ReadError := .atToken (.tooDeep limits.depth) opener
    readTokens {} "" [name] = .error misnamed ∧
      readTokens {} "" [stray] = .error unexpected ∧
      readRule ⟨.primary, limits, limits.depth⟩ "" [opener] 0 = .error tooDeep ∧
      misnamed.message? = none ∧ unexpected.message? = none ∧ tooDeep.message? = none := by
  intro n name stray opener limits misnamed unexpected tooDeep
  have long : 10 ^ maxIntegerDigits ≤ n.natAbs := Nat.le_of_eq (Int.natAbs_natCast _).symm
  have depth : 10 ^ maxIntegerDigits ≤ limits.depth := Nat.le_refl _
  exact ⟨readTokens_of_refused (step_overlong (Token.role_eq_overlong rfl long)) "" [],
    readTokens_of_refused (step_stray rfl) "" [],
    readRule_of_refused (step_opener rfl (Nat.le_refl _)) [],
    untold_of_long limits long depth opener⟩

end PipeExpr
