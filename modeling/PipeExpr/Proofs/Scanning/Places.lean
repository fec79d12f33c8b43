import PipeExpr.Proofs.Scanning.Tiling

set_option autoImplicit false

namespace PipeExpr

namespace Location

/-- The place of a position: the line is told by the number of line feeds before it, the column by
    its distance from the last of them, or from just before the source if there is none. -/
def ofPosition (source : List Char) (position : Nat) : Location :=
  let before := source.take position
  let column :=
    match (before.idxsOf '\n').getLast? with
    | some feed => position - feed
    | none => position + 1
  ⟨position, before.count '\n' + 1, column⟩

theorem ofPosition_length_append (front rest : List Char) :
    ofPosition (front ++ rest) front.length = ofPosition front front.length := by
  simp only [ofPosition, List.take_left, List.take_length]

theorem ofPosition_concat (front : List Char) (c : Char) :
    ofPosition (front ++ [c]) (front ++ [c]).length = (ofPosition front front.length).step c := by
  have feeds : (front ++ [c]).idxsOf '\n' =
      front.idxsOf '\n' ++ if c = '\n' then [front.length] else [] := by
    simp [List.idxsOf_append, List.idxsOf_cons]
  simp only [ofPosition, List.take_length, feeds, List.count_append]
  by_cases feed : c = '\n'
  · simp [step, feed]
  · cases last : (front.idxsOf '\n').getLast? with
    | none => simp [step, feed, last]
    | some i =>
      have before : i < front.length :=
        List.lt_add_of_mem_idxsOf i (List.mem_of_getLast? last)
      simp [step, feed, last, Nat.succ_sub (Nat.le_of_lt before)]

theorem start_advance (front rest : List Char) :
    start.advance front = ofPosition (front ++ rest) front.length := by
  rw [ofPosition_length_append]
  induction front using List.reverseRecOn with
  | nil => rfl
  | append_singleton front c ih =>
    rw [advance_append, ih, ofPosition_concat]
    rfl

theorem position_start_advance (front : List Char) :
    (start.advance front).position = front.length := by
  rw [position_advance]
  exact Nat.zero_add _

/-- A location that is told by the characters before it. -/
def Within (source : List Char) (l : Location) : Prop :=
  l.position ≤ source.length ∧ l = .ofPosition source l.position

theorem within_start_advance (front rest : List Char) :
    (start.advance front).Within (front ++ rest) := by
  have position := position_start_advance front
  refine ⟨?_, ?_⟩
  · rw [position, List.length_append]
    omega
  · rw [position, ← start_advance]

end Location

/-- The text of the token stands where the token says, and both ends are told by their true
    places. -/
structure Token.Located (source : List Char) (t : Token) : Prop where
  inside : t.start.position + t.chars.length ≤ source.length
  slice : (source.drop t.start.position).take t.chars.length = t.chars
  start_eq : t.start = .ofPosition source t.start.position
  finish_eq : t.finish = .ofPosition source (t.start.position + t.chars.length)

variable {source front rest : List Char} {t : Token} {s s' s'' : Scanner} {event : ScanEvent}
  {tokens : List Token}

theorem Token.Located.within (h : t.Located source) : t.start.Within source :=
  ⟨Nat.le_trans (Nat.le_add_right _ _) h.inside, h.start_eq⟩

theorem Token.finish_eq_advance (t : Token) : t.finish = t.start.advance t.chars :=
  (Location.advance_eq_past t.start t.chars).symm

theorem Token.located_of_start (here : t.start = Location.start.advance front) :
    t.Located (front ++ (t.chars ++ rest)) := by
  have position : t.start.position = front.length := by
    rw [here, Location.position_start_advance]
  have finish : t.finish = Location.start.advance (front ++ t.chars) := by
    rw [Location.advance_append, ← here, t.finish_eq_advance]
  refine ⟨?_, ?_, ?_, ?_⟩
  · rw [position, List.length_append, List.length_append]
    omega
  · rw [position, List.drop_left, List.take_left]
  · rw [position, ← Location.start_advance, here]
  · rw [position, finish, ← List.append_assoc, ← List.length_append, ← Location.start_advance]

namespace Scanner

/-- The scanner stands before the rest of the source and knows its place. -/
def Placed (source : List Char) (s : Scanner) : Prop :=
  ∃ front, front ++ s.rest = source ∧ s.location = Location.start.advance front

theorem placed_ofSource (source : String) : Placed source.toList (.ofSource source) :=
  ⟨[], rfl, rfl⟩

theorem Placed.within (h : Placed source s) : s.location.Within source := by
  obtain ⟨front, rfl, here⟩ := h
  rw [here]
  exact Location.within_start_advance front s.rest

/-- Every step passes over some characters, none perhaps, and takes its location along. -/
theorem Step.exists_passed (h : Step s event s') :
    ∃ passed, s.rest = passed ++ s'.rest ∧ s'.location = s.location.advance passed := by
  cases h with
  | @token gap text rest l p a =>
    exact ⟨gap ++ text, (List.append_assoc ..).symm, (Location.advance_append ..).symm⟩
  | @outOfRange gap text rest c l =>
    exact ⟨gap ++ c :: text, (List.append_assoc ..).symm, (Location.advance_append ..).symm⟩
  | @unexpected gap rest c l => exact ⟨gap, rfl, rfl⟩
  | @finish gap l => exact ⟨gap, (List.append_nil gap).symm, rfl⟩

theorem Placed.step (h : Placed source s) (moved : Step s event s') : Placed source s' := by
  obtain ⟨front, rfl, here⟩ := h
  obtain ⟨passed, rest, place⟩ := moved.exists_passed
  refine ⟨front ++ passed, ?_, ?_⟩
  · rw [rest, List.append_assoc]
  · rw [Location.advance_append, ← here, place]

theorem Placed.token (h : Placed source s) (moved : Step s (.token t) s') :
    t.Located source ∧ s'.location = t.finish := by
  obtain ⟨front, rfl, here⟩ := h
  obtain ⟨gap, p, rest, -, -, -, start, stop⟩ := moved.token_inv
  refine ⟨?_, ?_⟩
  · rw [rest, ← List.append_assoc]
    apply Token.located_of_start
    rw [Location.advance_append, ← here, start]
  · rw [stop, t.finish_eq_advance]

theorem Placed.delivers (h : Placed source s) (delivered : Delivers s tokens s') :
    Placed source s' ∧ ∀ t ∈ tokens, t.Located source := by
  induction delivered with
  | done => exact ⟨h, List.forall_mem_nil _⟩
  | cons moved _ ih =>
    obtain ⟨placed, located⟩ := ih (h.step moved)
    exact ⟨placed, List.forall_mem_cons.mpr ⟨(h.token moved).1, located⟩⟩

theorem drain_cases (s : Scanner) : ∃ tokens s' s'', Delivers s tokens s' ∧
    ((Step s' .finish s'' ∧ s.drain = (.ok tokens, s'')) ∨
      ∃ e, Step s' (.failure e) s'' ∧ s.drain = (.error e, s'')) := by
  obtain ⟨tokens, s', delivered, ⟨s'', last⟩ | ⟨e, s'', last⟩⟩ := exists_delivers s
  · exact ⟨tokens, s', s'', delivered, .inl ⟨last, delivered.drain_finish last⟩⟩
  · exact ⟨tokens, s', s'', delivered, .inr ⟨e, last, delivered.drain_failure last⟩⟩

theorem Placed.next (h : Placed source s) : Placed source s.next.2 :=
  h.step (step_next s)

theorem Placed.drain (h : Placed source s) : Placed source s.drain.2 := by
  obtain ⟨tokens, s', s'', delivered, ⟨last, drained⟩ | ⟨e, last, drained⟩⟩ := drain_cases s <;>
    rw [drained] <;>
      exact (h.delivers delivered).1.step last

/-- The states that a scanner can be brought into, by asking for one event or for all tokens at a
    time, in any order and also after failures. -/
inductive Reached (source : String) : Scanner → Prop
  | start : Reached source (.ofSource source)
  | next {s : Scanner} : Reached source s → Reached source s.next.2
  | drain {s : Scanner} : Reached source s → Reached source s.drain.2

variable {source : String}

theorem Reached.placed (h : Reached source s) : Placed source.toList s := by
  induction h with
  | start => exact placed_ofSource source
  | next _ ih => exact ih.next
  | drain _ ih => exact ih.drain

theorem Reached.delivers (h : Reached source s) (delivered : Delivers s tokens s') :
    ∀ t ∈ tokens, ∃ r r', Reached source r ∧ r.next = (.token t, r') := by
  induction delivered with
  | done => exact List.forall_mem_nil _
  | @cons s s' s'' t tokens moved _ ih =>
    have answer := moved.next_eq
    have reached : Reached source s' := by
      have after := h.next
      rw [answer] at after
      exact after
    exact List.forall_mem_cons.mpr ⟨⟨s, s', h, answer⟩, ih reached⟩

/-- A scanner is always at the true place of its position, and so are both ends of every token that
    it gives out; behind a token it stands where the token ends. -/
theorem location_of_reached (h : Reached source s) :
    s.location.position ≤ source.length ∧
      s.location = .ofPosition source.toList s.location.position ∧
      (∀ t s', s.next = (.token t, s') → t.Located source.toList ∧ s'.location = t.finish) ∧
      ∀ tokens s', s.drain = (.ok tokens, s') → ∀ t ∈ tokens, t.Located source.toList ∧
        ∃ r r', Reached source r ∧ r.next = (.token t, r') ∧ r'.location = t.finish := by
  have placed := h.placed
  obtain ⟨inside, here⟩ := placed.within
  refine ⟨inside, here, fun t s' answer => placed.token (next_eq_iff.mp answer), ?_⟩
  intro tokens s' drained t mem
  obtain ⟨tokens', r, r', delivered, ⟨-, drained'⟩ | ⟨e, -, drained'⟩⟩ := drain_cases s
  · rw [drained] at drained'
    cases drained'
    obtain ⟨r, r', reached, answer⟩ := h.delivers delivered t mem
    obtain ⟨located, stop⟩ := reached.placed.token (next_eq_iff.mp answer)
    exact ⟨located, r, r', reached, answer, stop⟩
  · rw [drained] at drained'
    cases drained'

theorem location_of_reached_text :
    let s := (Scanner.ofSource "1 \"\n\" x").next.2
    let t : Token := ⟨.value, .string "\n", ⟨2, 1, 3⟩, "\"\n\""⟩
    Reached "1 \"\n\" x" s ∧ s.next = (.token t, ⟨[' ', 'x'], ⟨5, 2, 2⟩⟩) ∧
      t.Located "1 \"\n\" x".toList ∧ t.finish = ⟨5, 2, 2⟩ := by
  intro s t
  have reached : Reached "1 \"\n\" x" s := .next .start
  have answer : s.next = (.token t, ⟨[' ', 'x'], ⟨5, 2, 2⟩⟩) := by rfl
  obtain ⟨located, stop⟩ := (location_of_reached reached).2.2.1 t _ answer
  exact ⟨reached, answer, located, stop.symm⟩

end Scanner

end PipeExpr
