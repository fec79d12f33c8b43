import Mathlib.Data.List.Induction
import PipeExpr.Proofs.Reading.Completeness

/-!
# Everything read derives

What was read so far justifies the state that was reached: the open brackets and what is pending in
them, then what the focus says. Every step keeps this, so a tree that is read has a derivation.
-/

set_option autoImplicit false

namespace PipeExpr
open Terminal (symbol)

namespace Grammar

theorem Segments.concat {ts : List Terminal} {segments : List String} (h : Segments ts segments)
    {v : Scalar} (notRoot : v ≠ .string rootMarker) :
    Segments (ts ++ [symbol ".", ⟨.reference, v⟩]) (segments ++ [v.text]) := by
  induction h with
  | nil => exact .cons v notRoot .nil
  | cons w notRoot' _ ih => exact .cons w notRoot' ih

theorem Operands.concat {d : Nat} {ts us : List Terminal} {es : List Expr} {e : Expr} :
    Operands d ts es → Primary d us e → Operands d (ts ++ us) (es ++ [e])
  | .one primary, last => .more primary (.one last)
  | .more primary operands, last => by
    rw [List.append_assoc]
    exact .more primary (operands.concat last)
termination_by structural h => h

theorem Stages.concat {d : Nat} {ts us : List Terminal} {es : List Expr} {e : Expr} :
    Stages d ts es → Application d us e → Stages d (ts ++ symbol "|" :: us) (es ++ [e])
  | .one application, last => .more application (.one last)
  | .more application stages, last => by
    rw [List.append_assoc]
    exact .more application (stages.concat last)
termination_by structural h => h

theorem Elements.concat {d : Nat} {ts us : List Terminal} {es : List Expr} {e : Expr} :
    Elements d ts es → Pipeline d us e → Elements d (ts ++ symbol "," :: us) (es ++ [e])
  | .one pipeline, last => .more pipeline (.one last)
  | .more pipeline elements, last => by
    rw [List.append_assoc]
    exact .more pipeline (elements.concat last)
termination_by structural h => h

theorem Entries.concat {d : Nat} {ts us : List Terminal} {entries : List (String × Expr)}
    {e : Expr} {k : Terminal} {key : String} :
    Entries d ts entries → Key k key → Pipeline d us e →
      Entries d (ts ++ symbol "," :: k :: symbol ":" :: us) (entries ++ [(key, e)])
  | .one isKey' pipeline, isKey, last => .more isKey' pipeline (.one isKey last)
  | .more isKey' pipeline rest, isKey, last => by
    have all := Entries.more isKey' pipeline (rest.concat isKey last)
    simpa using all
termination_by structural h => h

/-- What stands before the next part of a list: nothing, or other parts and the separator. -/
def Before {α : Type} (parts : List Terminal → List α → Prop) (separator ts : List Terminal)
    (as : List α) : Prop :=
  (ts = [] ∧ as = []) ∨ ∃ us, ts = us ++ separator ∧ parts us as

inductive PendingRead (d : Nat) : List Terminal → Pending → Prop
  | intro {ts us : List Terminal} {p : Pending} :
      Before (Stages d) [symbol "|"] ts p.stages.reverse →
        Before (Operands d) [] us p.operands.reverse → PendingRead d (ts ++ us) p

inductive FramesRead : Nat → List Terminal → List Frame → Prop
  | nil {d : Nat} : FramesRead d [] []
  | group {d : Nat} {ts us : List Terminal} {frames : List Frame} {opener : Token}
      {outer : Pending} :
      FramesRead (d + 1) ts frames → PendingRead (d + 1) us outer →
        FramesRead d (ts ++ us ++ [symbol "("]) (.group opener outer :: frames)
  | array {d : Nat} {ts us vs : List Terminal} {frames : List Frame} {elements : List Expr}
      {outer : Pending} :
      FramesRead (d + 1) ts frames → PendingRead (d + 1) us outer →
        Before (Elements d) [symbol ","] vs elements.reverse →
          FramesRead d (ts ++ us ++ symbol "[" :: vs) (.array elements outer :: frames)
  | object {d : Nat} {ts us vs : List Terminal} {frames : List Frame}
      {entries : List (String × Expr)} {k : Terminal} {key : String} {outer : Pending} :
      FramesRead (d + 1) ts frames → PendingRead (d + 1) us outer →
        Before (Entries d) [symbol ","] vs entries → Key k key →
          FramesRead d (ts ++ us ++ symbol "\x7b" :: (vs ++ [k, symbol ":"]))
            (.object (members entries) key outer :: frames)

/-- The terminals lead to the state when `limit` levels of brackets are allowed. -/
inductive StateRead (limit : Nat) : List Terminal → ReadState → Prop
  | start {d : Nat} {ts : List Terminal} {frames : List Frame} {fresh : Bool} :
      d + frames.length = limit → FramesRead d ts frames →
        (fresh = true → ∀ elements outer rest, frames = .array elements outer :: rest →
          elements = []) →
          StateRead limit ts ⟨frames, .start fresh⟩
  | stage {d : Nat} {ts us : List Terminal} {frames : List Frame} {p : Pending} :
      d + frames.length = limit → FramesRead d ts frames → PendingRead d us p →
        StateRead limit (ts ++ us) ⟨frames, .stage p⟩
  | path {d : Nat} {ts us vs : List Terminal} {frames : List Frame} {p : Pending} {v : Scalar}
      {segments others : List String} :
      d + frames.length = limit → FramesRead d ts frames → PendingRead d us p →
        Segments vs others → segments.reverse = v.text :: others →
          StateRead limit (ts ++ us ++ ⟨.reference, v⟩ :: vs) ⟨frames, .path p segments⟩
  | segment {d : Nat} {ts us vs : List Terminal} {frames : List Frame} {p : Pending} {v : Scalar}
      {segments others : List String} :
      d + frames.length = limit → FramesRead d ts frames → PendingRead d us p →
        Segments vs others → segments.reverse = v.text :: others →
          StateRead limit (ts ++ us ++ ⟨.reference, v⟩ :: (vs ++ [symbol "."]))
            ⟨frames, .segment p segments⟩
  | operand {d : Nat} {ts us vs : List Terminal} {frames : List Frame} {p : Pending}
      {last : Expr} :
      d + frames.length = limit → FramesRead d ts frames → PendingRead d us p →
        Primary d vs last → StateRead limit (ts ++ us ++ vs) ⟨frames, .operand p last⟩
  | key {d : Nat} {ts us vs : List Terminal} {frames : List Frame} {fresh : Bool}
      {entries : List (String × Expr)} {outer : Pending} :
      d + 1 + frames.length = limit → FramesRead (d + 1) ts frames →
        PendingRead (d + 1) us outer → Before (Entries d) [symbol ","] vs entries →
          (fresh = true → entries = []) →
            StateRead limit (ts ++ us ++ symbol "\x7b" :: vs)
              ⟨frames, .key fresh (members entries) outer⟩
  | colon {d : Nat} {ts us vs : List Terminal} {frames : List Frame}
      {entries : List (String × Expr)} {k : Terminal} {key : String} {outer : Pending} :
      d + 1 + frames.length = limit → FramesRead (d + 1) ts frames →
        PendingRead (d + 1) us outer → Before (Entries d) [symbol ","] vs entries → Key k key →
          StateRead limit (ts ++ us ++ symbol "\x7b" :: (vs ++ [k]))
            ⟨frames, .colon (members entries) key outer⟩

theorem Before.concat {α : Type} {parts : List Terminal → List α → Prop}
    {separator ts us : List Terminal} {as : List α} {a : α} (h : Before parts separator ts as)
    (alone : parts us [a])
    (behind : ∀ ws, parts ws as → parts (ws ++ separator ++ us) (as ++ [a])) :
    parts (ts ++ us) (as ++ [a]) := by
  rcases h with ⟨rfl, rfl⟩ | ⟨ws, rfl, before⟩
  · exact alone
  · exact behind ws before

theorem Before.stages {d : Nat} {ts us : List Terminal} {es : List Expr} {e : Expr}
    (h : Before (Stages d) [symbol "|"] ts es) (last : Application d us e) :
    Stages d (ts ++ us) (es ++ [e]) :=
  h.concat (.one last) fun ws before => by simpa using before.concat last

theorem Before.operands {d : Nat} {ts us : List Terminal} {es : List Expr} {e : Expr}
    (h : Before (Operands d) [] ts es) (last : Primary d us e) :
    Operands d (ts ++ us) (es ++ [e]) :=
  h.concat (.one last) fun ws before => by simpa using before.concat last

theorem Before.elements {d : Nat} {ts us : List Terminal} {es : List Expr} {e : Expr}
    (h : Before (Elements d) [symbol ","] ts es) (last : Pipeline d us e) :
    Elements d (ts ++ us) (es ++ [e]) :=
  h.concat (.one last) fun ws before => by simpa using before.concat last

theorem Before.entries {d : Nat} {ts us : List Terminal} {entries : List (String × Expr)}
    {e : Expr} {k : Terminal} {key : String} (h : Before (Entries d) [symbol ","] ts entries)
    (isKey : Key k key) (last : Pipeline d us e) :
    Entries d (ts ++ k :: symbol ":" :: us) (entries ++ [(key, e)]) :=
  h.concat (.one isKey last) fun ws before => by simpa using before.concat isKey last

variable {d : Nat} {ts us : List Terminal} {p : Pending} {e : Expr}

theorem PendingRead.empty : PendingRead d [] {} :=
  .intro (.inl ⟨rfl, rfl⟩) (.inl ⟨rfl, rfl⟩)

theorem PendingRead.push (h : PendingRead d ts p) (operand : Primary d us e) :
    PendingRead d (ts ++ us) (p.push e) := by
  obtain ⟨stages, operands⟩ := h
  rw [List.append_assoc]
  refine .intro stages (.inr ⟨_, (List.append_nil _).symm, ?_⟩)
  rw [Pending.push, List.reverse_cons]
  exact operands.operands operand

theorem PendingRead.application (h : PendingRead d ts p) (last : Primary d us e) :
    Stages d (ts ++ us) (p.stages.reverse ++ [p.application e]) := by
  obtain ⟨stages, operands⟩ := h
  have all := operands.operands last
  cases whole : p.operands.reverse ++ [e] with
  | nil => simp at whole
  | cons function arguments =>
    rw [whole] at all
    rw [Pending.application_eq whole, List.append_assoc]
    exact stages.stages (.ofOperands all)

theorem PendingRead.endStage (h : PendingRead d ts p) (last : Primary d us e) :
    PendingRead d (ts ++ us ++ [symbol "|"]) (p.endStage e) := by
  have stages := h.application last
  rw [← List.reverse_cons] at stages
  rw [← List.append_nil (ts ++ us ++ [symbol "|"])]
  exact .intro (.inr ⟨_, rfl, stages⟩) (.inl ⟨rfl, rfl⟩)

theorem PendingRead.pipeline (h : PendingRead d ts p) (last : Primary d us e) :
    Pipeline d (ts ++ us) (p.pipeline e) := by
  have stages := h.application last
  cases whole : p.stages.reverse ++ [p.application e] with
  | nil => simp at whole
  | cons first others =>
    rw [whole] at stages
    rw [Pending.pipeline_eq whole]
    exact .ofStages stages

open ReadContext

variable {ctx : ReadContext} {limit : Nat} {s s' : ReadState} {t : Token} {frames : List Frame}
  {last : Expr}

theorem StateRead.settled (h : StateRead limit ts s) (settled : Settled frames p last s) :
    ∃ d xs ys zs, ts = xs ++ ys ++ zs ∧ d + frames.length = limit ∧ FramesRead d xs frames ∧
      PendingRead d ys p ∧ Primary d zs last := by
  cases settled with
  | operand =>
    cases h with
    | operand level frames pending primary =>
      exact ⟨_, _, _, _, rfl, level, frames, pending, primary⟩
  | path segments eq =>
    subst eq
    cases h with
    | path level frames pending others path =>
      exact ⟨_, _, _, _, rfl, level, frames, pending, path ▸ .reference _ others⟩

theorem StateRead.due (h : StateRead limit ts s) (due : ctx.Due frames p s) :
    ∃ d xs ys, ts = xs ++ ys ∧ d + frames.length = limit ∧ FramesRead d xs frames ∧
      PendingRead d ys p := by
  cases due with
  | start fresh =>
    cases h with
    | start level frames _ => exact ⟨_, _, [], by simp, level, frames, .empty⟩
  | stage =>
    cases h with
    | stage level frames pending => exact ⟨_, _, _, rfl, level, frames, pending⟩
  | next settled _ =>
    obtain ⟨d, xs, ys, zs, rfl, level, frames, pending, primary⟩ := h.settled settled
    exact ⟨d, xs, ys ++ zs, by simp, level, frames, pending.push primary⟩

theorem StateRead.due_inside (h : StateRead limit ts s) (due : ctx.Due frames p s)
    (level : ctx.depth + limit = ctx.limits.depth)
    (allowed : ctx.depth + frames.length < ctx.limits.depth) :
    ∃ d xs ys, ts = xs ++ ys ∧ d + 1 + frames.length = limit ∧ FramesRead (d + 1) xs frames ∧
      PendingRead (d + 1) ys p := by
  obtain ⟨d, xs, ys, rfl, level', frames, pending⟩ := h.due due
  obtain ⟨d, rfl⟩ : ∃ k, d = k + 1 := ⟨d - 1, by omega⟩
  exact ⟨d, xs, ys, rfl, level', frames, pending⟩

theorem Before.eq_nil {α : Type} {parts : List Terminal → List α → Prop}
    {separator : List Terminal} (h : Before parts separator ts []) (none : ∀ us, ¬parts us []) :
    ts = [] := by
  rcases h with ⟨rfl, -⟩ | ⟨us, -, before⟩
  · rfl
  · exact absurd before (none us)

theorem level_cons {frame : Frame} :
    d + (frame :: frames).length = limit ↔ d + 1 + frames.length = limit := by
  rw [List.length_cons]
  omega

section
variable (h : StateRead limit ts s)
include h

-- Operands.

theorem StateRead.value (due : ctx.Due frames p s) (v : Scalar) :
    StateRead limit (ts ++ [⟨.value, v⟩]) ⟨frames, .operand p (.ofScalar v)⟩ := by
  obtain ⟨d, xs, ys, rfl, level, frames, pending⟩ := h.due due
  exact .operand level frames pending (.value v)

theorem StateRead.name (due : ctx.Due frames p s) (v : Scalar) :
    StateRead limit (ts ++ [⟨.reference, v⟩]) ⟨frames, .path p [v.text]⟩ := by
  obtain ⟨d, xs, ys, rfl, level, frames, pending⟩ := h.due due
  exact .path level frames pending .nil rfl

-- Opening brackets.

theorem StateRead.openGroup (due : ctx.Due frames p s)
    (level : ctx.depth + limit = ctx.limits.depth)
    (allowed : ctx.depth + frames.length < ctx.limits.depth) (opener : Token) :
    StateRead limit (ts ++ [symbol "("]) ⟨.group opener p :: frames, .start true⟩ := by
  obtain ⟨d, xs, ys, rfl, level, frames, pending⟩ := h.due_inside due level allowed
  exact .start (level_cons.mpr level) (.group frames pending) (by simp)

theorem StateRead.openArray (due : ctx.Due frames p s)
    (level : ctx.depth + limit = ctx.limits.depth)
    (allowed : ctx.depth + frames.length < ctx.limits.depth) :
    StateRead limit (ts ++ [symbol "["]) ⟨.array [] p :: frames, .start true⟩ := by
  obtain ⟨d, xs, ys, rfl, level, frames, pending⟩ := h.due_inside due level allowed
  exact .start (level_cons.mpr level) (.array frames pending (.inl ⟨rfl, rfl⟩)) (by simp)

theorem StateRead.openObject (due : ctx.Due frames p s)
    (level : ctx.depth + limit = ctx.limits.depth)
    (allowed : ctx.depth + frames.length < ctx.limits.depth) :
    StateRead limit (ts ++ [symbol "\x7b"]) ⟨frames, .key true [] p⟩ := by
  obtain ⟨d, xs, ys, rfl, level, frames, pending⟩ := h.due_inside due level allowed
  exact .key level frames pending (.inl ⟨rfl, rfl⟩) (fun _ => rfl)

-- Closing the innermost bracket behind an operand.

theorem StateRead.closeGroup {opener : Token} {outer : Pending}
    (settled : Settled (.group opener outer :: frames) p last s) :
    StateRead limit (ts ++ [symbol ")"]) ⟨frames, .operand outer (p.pipeline last)⟩ := by
  obtain ⟨d, xs, ys, zs, rfl, level, frames, pending, primary⟩ := h.settled settled
  cases frames with
  | group frames outer =>
    have all := StateRead.operand (level_cons.mp level) frames outer
      (.group (pending.pipeline primary))
    simpa using all

theorem StateRead.closeArray {elements : List Expr} {outer : Pending}
    (settled : Settled (.array elements outer :: frames) p last s) :
    StateRead limit (ts ++ [symbol "]"])
      ⟨frames, .operand outer (.array (p.pipeline last :: elements).reverse)⟩ := by
  obtain ⟨d, xs, ys, zs, rfl, level, frames, pending, primary⟩ := h.settled settled
  cases frames with
  | array frames outer before =>
    have elements := before.elements (pending.pipeline primary)
    rw [← List.reverse_cons] at elements
    have all := StateRead.operand (level_cons.mp level) frames outer (.array elements)
    simpa using all

theorem StateRead.closeObject {ms : List (String × Expr)} {key : String} {outer : Pending}
    (settled : Settled (.object ms key outer :: frames) p last s) :
    StateRead limit (ts ++ [symbol "\x7d"])
      ⟨frames, .operand outer (.object (putMember ms key (p.pipeline last)))⟩ := by
  obtain ⟨d, xs, ys, zs, rfl, level, frames, pending, primary⟩ := h.settled settled
  cases frames with
  | object frames outer before isKey =>
    have entries := before.entries isKey (pending.pipeline primary)
    rw [← members_concat]
    have all := StateRead.operand (level_cons.mp level) frames outer (.object entries)
    simpa using all

-- Separators between stages, elements and entries.

theorem StateRead.pipe (settled : Settled frames p last s) :
    StateRead limit (ts ++ [symbol "|"]) ⟨frames, .stage (p.endStage last)⟩ := by
  obtain ⟨d, xs, ys, zs, rfl, level, frames, pending, primary⟩ := h.settled settled
  have all := StateRead.stage level frames (pending.endStage primary)
  simpa using all

theorem StateRead.nextElement {elements : List Expr} {outer : Pending}
    (settled : Settled (.array elements outer :: frames) p last s) :
    StateRead limit (ts ++ [symbol ","])
      ⟨.array (p.pipeline last :: elements) outer :: frames, .start false⟩ := by
  obtain ⟨d, xs, ys, zs, rfl, level, frames, pending, primary⟩ := h.settled settled
  cases frames with
  | array frames outer before =>
    have elements := before.elements (pending.pipeline primary)
    rw [← List.reverse_cons] at elements
    have all : StateRead limit _ ⟨.array (_ :: _) _ :: _, .start false⟩ :=
      .start level (.array frames outer (.inr ⟨_, rfl, elements⟩)) nofun
    simpa using all

theorem StateRead.nextEntry {ms : List (String × Expr)} {key : String} {outer : Pending}
    (settled : Settled (.object ms key outer :: frames) p last s) :
    StateRead limit (ts ++ [symbol ","])
      ⟨frames, .key false (putMember ms key (p.pipeline last)) outer⟩ := by
  obtain ⟨d, xs, ys, zs, rfl, level, frames, pending, primary⟩ := h.settled settled
  cases frames with
  | object frames outer before isKey =>
    have entries := before.entries isKey (pending.pipeline primary)
    rw [← members_concat]
    have all : StateRead limit _ ⟨_, .key false _ _⟩ :=
      .key (level_cons.mp level) frames outer (.inr ⟨_, rfl, entries⟩) nofun
    simpa using all

end

-- Tokens inside a path or an object, and brackets with nothing in them.

theorem StateRead.dot {segments : List String} (h : StateRead limit ts ⟨frames, .path p segments⟩) :
    StateRead limit (ts ++ [symbol "."]) ⟨frames, .segment p segments⟩ := by
  cases h with
  | path level frames pending others path =>
    rw [List.append_assoc, List.cons_append]
    exact .segment level frames pending others path

theorem StateRead.nextSegment {segments : List String} {v : Scalar}
    (h : StateRead limit ts ⟨frames, .segment p segments⟩) (notRoot : v ≠ .string rootMarker) :
    StateRead limit (ts ++ [⟨.reference, v⟩]) ⟨frames, .path p (v.text :: segments)⟩ := by
  cases h with
  | segment level frames pending others path =>
    have all := StateRead.path level frames pending (others.concat notRoot)
      (by rw [List.reverse_cons, path, List.cons_append])
    simpa using all

theorem StateRead.emptyArray {elements : List Expr} {outer : Pending}
    (h : StateRead limit ts ⟨.array elements outer :: frames, .start true⟩) :
    StateRead limit (ts ++ [symbol "]"]) ⟨frames, .operand outer (.array [])⟩ := by
  cases h with
  | start level frames fresh =>
    obtain rfl := fresh rfl _ _ _ rfl
    cases frames with
    | array frames outer before =>
      obtain rfl := before.eq_nil (by rintro us ⟨⟩)
      have all := StateRead.operand (level_cons.mp level) frames outer .emptyArray
      simpa using all

section
variable {ms : List (String × Expr)} {outer : Pending} {fresh : Bool} {key : String}

theorem StateRead.emptyObject (h : StateRead limit ts ⟨frames, .key true ms outer⟩) :
    StateRead limit (ts ++ [symbol "\x7d"]) ⟨frames, .operand outer (.object [])⟩ := by
  cases h with
  | @key d _ _ _ _ _ _ _ level frames outer before fresh =>
    obtain rfl := fresh rfl
    obtain rfl := before.eq_nil (by rintro us ⟨⟩)
    have all := StateRead.operand level frames outer .emptyObject
    simpa using all

theorem StateRead.nextKey {k : Terminal} (h : StateRead limit ts ⟨frames, .key fresh ms outer⟩)
    (isKey : Key k key) : StateRead limit (ts ++ [k]) ⟨frames, .colon ms key outer⟩ := by
  cases h with
  | key level frames outer before _ =>
    have all := StateRead.colon level frames outer before isKey
    simpa using all

theorem StateRead.nextValue (h : StateRead limit ts ⟨frames, .colon ms key outer⟩) :
    StateRead limit (ts ++ [symbol ":"]) ⟨.object ms key outer :: frames, .start false⟩ := by
  cases h with
  | colon level frames outer before isKey =>
    have all : StateRead limit _ ⟨_, .start false⟩ :=
      .start (level_cons.mpr level) (.object frames outer before isKey) nofun
    simpa using all

end

theorem StateRead.shift (h : StateRead limit ts s)
    (level : ctx.depth + limit = ctx.limits.depth) (moved : ctx.Shift t s s') :
    StateRead limit (ts ++ [t.terminal]) s' := by
  cases moved with
  | value due eq => exact eq ▸ h.value due _
  | name due eq written =>
    rw [← Scalar.text_of_text? written, eq]
    exact h.name due _
  | openGroup due eq allowed => exact eq ▸ h.openGroup due level allowed t
  | openArray due eq allowed => exact eq ▸ h.openArray due level allowed
  | openObject due eq allowed => exact eq ▸ h.openObject due level allowed
  | emptyArray eq => exact eq ▸ h.emptyArray
  | emptyObject eq => exact eq ▸ h.emptyObject
  | dot eq => exact eq ▸ h.dot
  | segment eq written notRoot =>
    rw [← Scalar.text_of_text? written, eq]
    exact h.nextSegment notRoot
  | pipe settled eq _ _ => exact eq ▸ h.pipe settled
  | closeGroup settled eq => exact eq ▸ h.closeGroup settled
  | nextElement settled eq => exact eq ▸ h.nextElement settled
  | closeArray settled eq => exact eq ▸ h.closeArray settled
  | nextEntry settled eq => exact eq ▸ h.nextEntry settled
  | closeObject settled eq => exact eq ▸ h.closeObject settled
  | key isKey _ => exact h.nextKey isKey
  | colon eq => exact eq ▸ h.nextValue

theorem StateRead.shifts {tokens : List Token} (level : ctx.depth + limit = ctx.limits.depth)
    (moved : ctx.shifts {} tokens = some s) : StateRead limit (tokens.map Token.terminal) s := by
  induction tokens using List.reverseRecOn generalizing s with
  | nil =>
    cases moved
    exact .start rfl .nil nofun
  | append_singleton before t ih =>
    obtain ⟨s', first, last⟩ := shifts_concat_iff.mp moved
    rw [List.map_append]
    exact (ih first).shift level last

end Grammar

/-- Tokens that are read as a tree derive it within the limits. -/
theorem pipeline_of_readTokens {limits : Limits} {source : String} {tokens : List Token}
    {e : Expr} (h : readTokens limits source tokens = .ok e) :
    Grammar.Pipeline limits.depth (tokens.map Token.terminal) e := by
  obtain ⟨s, moved, ends⟩ := ReadContext.readTokens_eq_ok_iff.mp h
  obtain ⟨p, last, settled, rfl⟩ := ReadContext.atEnd_eq_ok_iff.mp ends
  have read := Grammar.StateRead.shifts (Nat.zero_add limits.depth) moved
  obtain ⟨d, xs, ys, zs, eq, level, frames, pending, primary⟩ := read.settled settled
  cases frames with
  | nil =>
    rw [eq, ← level]
    exact pending.pipeline primary

end PipeExpr
