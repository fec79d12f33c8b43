import PipeExpr.Proofs.Scanning.Places

/-!
# The events of a source

A scanner can be asked for its next token, for the first item of an iteration over its tokens, or
for all tokens that are left, and these requests can follow one another in any order, also behind
failures. All of them draw on one row of events, which is given by the source alone.
-/

set_option autoImplicit false

namespace PipeExpr

inductive Request where
  | next
  | item
  | all
deriving DecidableEq

inductive Reply where
  | token (t : Token)
  | nothing
  | tokens (ts : List Token)
  | failure (e : ScanError)
deriving DecidableEq

def ScanEvent.reply : ScanEvent → Reply
  | token t => .token t
  | failure e => .failure e
  | finish => .nothing

namespace Scanner

def serve (s : Scanner) : Request → Reply × Scanner
  | .next | .item =>
    match s.next with
    | (event, s') => (event.reply, s')
  | .all =>
    match s.drain with
    | (.ok tokens, s') => (.tokens tokens, s')
    | (.error e, s') => (.failure e, s')

def replies (s : Scanner) : List Request → List (Reply × Scanner)
  | [] => []
  | request :: rest => s.serve request :: (s.serve request).2.replies rest

end Scanner

/-- Events still to come, each with the scanner that it leaves behind. When the passing ones are
    through, the last one comes again and again. -/
structure Events where
  passing : List (ScanEvent × Scanner)
  last : ScanEvent × Scanner

namespace Events

def one (es : Events) : (Reply × Scanner) × Events :=
  match es.passing with
  | [] => ((es.last.1.reply, es.last.2), es)
  | (event, s) :: rest => ((event.reply, s), { es with passing := rest })

/-- All events up to a failure, which takes the place of the tokens before it, or up to the end. -/
def gather (last : ScanEvent × Scanner) :
    List (ScanEvent × Scanner) → (Reply × Scanner) × Events
  | [] =>
    match last.1 with
    | .failure e => ((.failure e, last.2), ⟨[], last⟩)
    | _ => ((.tokens [], last.2), ⟨[], last⟩)
  | (.token t, _) :: rest =>
    match gather last rest with
    | ((.tokens ts, s), left) => ((.tokens (t :: ts), s), left)
    | other => other
  | (event, s) :: rest => ((event.reply, s), ⟨rest, last⟩)

def serve (es : Events) : Request → (Reply × Scanner) × Events
  | .next | .item => es.one
  | .all => gather es.last es.passing

def replies (es : Events) : List Request → List (Reply × Scanner)
  | [] => []
  | request :: rest => (es.serve request).1 :: (es.serve request).2.replies rest

end Events

/-- A token, behind which the scanner stands, or a numeral out of range, which the scanner has left
    behind as well. -/
inductive PassingEvent (source : List Char) : ScanEvent × Scanner → Prop
  | token {t : Token} {s : Scanner} :
      source.drop t.start.position = t.chars ++ s.rest → s.location = t.finish →
        PassingEvent source (.token t, s)
  | outOfRange {c : Char} {text rest : List Char} {p : Pattern} {l : Location} :
      p = .decimal ∨ p = .integer → p.Matches (c :: text) → p.read? (c :: text) = none →
        LongestMatch (c :: text ++ rest) (c :: text) →
          source.drop l.position = c :: text ++ rest →
            PassingEvent source
              (.failure ⟨c.toString, l, .outOfRange⟩, ⟨rest, l.advance (c :: text)⟩)

/-- The end of the source, or a character that begins nothing, on which the scanner stays. -/
inductive LastEvent (source : List Char) : ScanEvent × Scanner → Prop
  | unexpected {c : Char} {rest : List Char} {l : Location} :
      (∀ (kind : PieceKind) (text : List Char), kind.Matches text → ¬text <+: c :: rest) →
        source.drop l.position = c :: rest →
          LastEvent source (.failure ⟨c.toString, l, .unexpectedCharacter⟩, ⟨c :: rest, l⟩)
  | finish {l : Location} :
      l.position = source.length → LastEvent source (.finish, ⟨[], l⟩)

namespace Scanner

variable {source front gap rest : List Char} {s s' : Scanner} {event : ScanEvent} {t : Token}
  {e : ScanError} {es : Events}

theorem drop_position (front gap rest : List Char) :
    (front ++ (gap ++ rest)).drop ((Location.start.advance front).advance gap).position = rest := by
  rw [← Location.advance_append, Location.position_start_advance, ← List.append_assoc,
    List.drop_left]

theorem Step.event_cases (moved : Step s event s') (placed : Placed source s) :
    PassingEvent source (event, s') ∧ s'.rest.length < s.rest.length ∨
      LastEvent source (event, s') ∧ Step s' event s' := by
  obtain ⟨front, rfl, here⟩ := placed
  cases moved with
  | @token gap text rest l p a blanks first value =>
    change l = _ at here
    subst here
    refine .inl ⟨.token ?_ ?_, ?_⟩
    · rw [Token.chars, String.toList_ofList]
      exact drop_position front gap (text ++ rest)
    · rw [Token.finish_eq_advance, Token.chars, String.toList_ofList]
    · have positive := List.length_pos_iff.mpr first.known.ne_nil
      simp only [List.length_append]
      omega
  | @outOfRange gap text rest c l p blanks first value =>
    change l = _ at here
    subst here
    cases first.known with
    | lexeme known =>
      refine .inl ⟨.outOfRange (Pattern.numeral_of_read?_eq_none value) known value
        first.longestMatch (drop_position front gap _), ?_⟩
      simp only [List.length_append, List.length_cons]
      omega
  | @unexpected gap rest c l blanks none =>
    change l = _ at here
    subst here
    have noGap : IsBlanks [] := List.forall_mem_nil _
    exact .inr ⟨.unexpected none (drop_position front gap _), .unexpected noGap none⟩
  | @finish gap l blanks =>
    change l = _ at here
    subst here
    refine .inr ⟨.finish ?_, .finish (List.forall_mem_nil _)⟩
    rw [← Location.advance_append, Location.position_start_advance]

inductive Gives (source : List Char) : Scanner → Events → Prop
  | last {s s' : Scanner} {event : ScanEvent} :
      Step s event s' → Step s' event s' → LastEvent source (event, s') →
        Gives source s ⟨[], (event, s')⟩
  | passing {s s' : Scanner} {event : ScanEvent} {passing : List (ScanEvent × Scanner)}
      {last : ScanEvent × Scanner} :
      Step s event s' → PassingEvent source (event, s') → Gives source s' ⟨passing, last⟩ →
        Gives source s ⟨(event, s') :: passing, last⟩

theorem exists_gives (s : Scanner) (placed : Placed source s) : ∃ es, Gives source s es := by
  have moved := step_next s
  rcases moved.event_cases placed with ⟨passing, shorter⟩ | ⟨last, again⟩
  · obtain ⟨⟨others, last⟩, given⟩ := exists_gives s.next.2 (placed.step moved)
    exact ⟨_, .passing moved passing given⟩
  · exact ⟨_, .last moved again last⟩
termination_by s.rest.length

theorem Gives.events (h : Gives source s es) :
    (∀ event ∈ es.passing, PassingEvent source event) ∧ LastEvent source es.last := by
  induction h with
  | last _ _ last => exact ⟨List.forall_mem_nil _, last⟩
  | passing _ passing _ ih => exact ⟨List.forall_mem_cons.mpr ⟨passing, ih.1⟩, ih.2⟩

theorem Step.drain_token (moved : Step s (.token t) s') :
    s.drain = (s'.drain.1.map (t :: ·), s'.drain.2) := by
  obtain ⟨tokens, r, r', delivered, ⟨last, drained⟩ | ⟨e, last, drained⟩⟩ := drain_cases s'
  · rw [drained, (Delivers.cons moved delivered).drain_finish last]
    rfl
  · rw [drained, (Delivers.cons moved delivered).drain_failure last]
    rfl

theorem Step.drain_failure (moved : Step s (.failure e) s') : s.drain = (.error e, s') :=
  (Delivers.done s).drain_failure moved

theorem Step.drain_finish (moved : Step s .finish s') : s.drain = (.ok [], s') :=
  (Delivers.done s).drain_finish moved

theorem Gives.one (h : Gives source s es) :
    es.one.1 = (s.next.1.reply, s.next.2) ∧ Gives source s.next.2 es.one.2 := by
  cases h with
  | last moved again last =>
    rw [moved.next_eq]
    exact ⟨rfl, .last again again last⟩
  | passing moved passing given =>
    rw [moved.next_eq]
    exact ⟨rfl, given⟩

theorem Gives.gather (h : Gives source s es) :
    (Events.gather es.last es.passing).1 = s.serve .all ∧
      Gives source (s.serve .all).2 (Events.gather es.last es.passing).2 := by
  induction h with
  | @last s s' event moved again last =>
    cases last with
    | unexpected none here =>
      simp only [serve, moved.drain_failure]
      exact ⟨rfl, .last again again (.unexpected none here)⟩
    | finish here =>
      simp only [serve, moved.drain_finish]
      exact ⟨rfl, .last again again (.finish here)⟩
  | @passing s s' event others last moved passing given ih =>
    cases passing with
    | outOfRange =>
      simp only [serve, moved.drain_failure]
      exact ⟨rfl, given⟩
    | @token t =>
      simp only [serve, moved.drain_token] at ih ⊢
      obtain ⟨replied, left⟩ := ih
      simp only [Events.gather]
      cases drained : s'.drain with
      | mk outcome r =>
        rw [drained] at replied left
        generalize Events.gather last others = gathered at replied left
        obtain ⟨⟨reply, r'⟩, es⟩ := gathered
        cases outcome <;> cases replied <;> exact ⟨rfl, left⟩

theorem Gives.serve (h : Gives source s es) (request : Request) :
    (es.serve request).1 = s.serve request ∧
      Gives source (s.serve request).2 (es.serve request).2 := by
  cases request with
  | next | item => exact h.one
  | all => exact h.gather

theorem Gives.replies (h : Gives source s es) (requests : List Request) :
    s.replies requests = es.replies requests := by
  induction requests generalizing s es with
  | nil => rfl
  | cons request rest ih =>
    obtain ⟨replied, given⟩ := h.serve request
    rw [Scanner.replies, Events.replies, replied, ih given]

/-- Every source has one row of events that answers all requests, whatever their order. Each event
    but the last is given once; the last is given to all requests that are left. -/
theorem exists_events (source : String) : ∃ es : Events,
    (∀ event ∈ es.passing, PassingEvent source.toList event) ∧
    LastEvent source.toList es.last ∧
    ∀ requests, (ofSource source).replies requests = es.replies requests := by
  obtain ⟨es, given⟩ := exists_gives (.ofSource source) (placed_ofSource source)
  exact ⟨es, given.events.1, given.events.2, given.replies⟩

end Scanner

end PipeExpr
