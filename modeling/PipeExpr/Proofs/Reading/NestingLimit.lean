import PipeExpr.Proofs.Reading.Recognition

set_option autoImplicit false

namespace PipeExpr
open Terminal (symbol)

namespace Token

def opens (t : Token) : Bool :=
  t.isSpecial ["(", "[", "\x7b"]

def closes (t : Token) : Bool :=
  t.isSpecial [")", "]", "\x7d"]

def isBracket (t : Token) : Bool :=
  t.opens || t.closes

def lift (t : Token) : Int :=
  (if t.opens then 1 else 0) - (if t.closes then 1 else 0)

theorem lift_bare (t : Token) : t.terminal.bare.lift = t.lift := rfl

end Token

/-- By how many the opening brackets outnumber the closing ones. -/
def excess (tokens : List Token) : Int :=
  tokens.countP Token.opens - tokens.countP Token.closes

/-- In no beginning of the tokens are more than `depth` brackets open. -/
def NestedWithin (depth : Nat) (tokens : List Token) : Prop :=
  ∀ before, before <+: tokens → excess before ≤ depth

variable {tokens others : List Token} {t : Token}

theorem excess_filter (tokens : List Token) :
    excess (tokens.filter Token.isBracket) = excess tokens := by
  simp only [excess, List.countP_filter, Token.isBracket]
  congr 3 <;> funext t <;> cases t.opens <;> cases t.closes <;> rfl

theorem excess_congr (h : tokens.map Token.terminal = others.map Token.terminal) :
    excess tokens = excess others := by
  have counts : ∀ tokens : List Token, excess tokens =
      excess ((tokens.map Token.terminal).map Terminal.bare) := by
    intro tokens
    simp only [excess, List.countP_map]
    rfl
  rw [counts, h, ← counts]

def SameBrackets (tokens others : List Token) : Prop :=
  (tokens.filter Token.isBracket).map Token.terminal =
    (others.filter Token.isBracket).map Token.terminal

theorem NestedWithin.congr {depth : Nat} (h : NestedWithin depth tokens)
    (same : SameBrackets tokens others) : NestedWithin depth others := by
  intro before isPrefix
  have inside := (isPrefix.filter Token.isBracket).map Token.terminal
  rw [← same] at inside
  obtain ⟨kept, isPrefix, eq⟩ := List.prefix_map_iff.mp inside
  obtain ⟨before', isPrefix', rfl⟩ := List.prefix_filter_iff.mp isPrefix
  rw [← excess_filter before, excess_congr eq, excess_filter]
  exact h before' isPrefix'

/-- How many brackets are open. The frame of an object is made only behind the colon. -/
def ReadState.opened (s : ReadState) : Nat :=
  match s.focus with
  | .key .. | .colon .. => s.frames.length + 1
  | _ => s.frames.length

namespace ReadContext

variable {ctx ctx' : ReadContext} {frames : List Frame} {p : Pending} {last : Expr}
  {s s' : ReadState}

theorem Settled.opened (h : Settled frames p last s) : s.opened = frames.length := by
  cases h <;> rfl

theorem Due.opened (h : ctx.Due frames p s) : s.opened = frames.length := by
  cases h with
  | start | stage => rfl
  | next settled => exact settled.opened

/-- A step opens or closes the bracket that it takes in, and no other. -/
theorem Shift.opened (h : ctx.Shift t s s') : (s'.opened : Int) = s.opened + t.lift := by
  have opener : ∀ b ∈ ["(", "[", "\x7b"], (symbol b).bare.lift = 1 := by decide
  have closer : ∀ b ∈ [")", "]", "\x7d"], (symbol b).bare.lift = -1 := by decide
  have other : ∀ b ∈ ["|", ".", ",", ":"], (symbol b).bare.lift = 0 := by decide
  have value : ∀ v, (Terminal.mk .value v).bare.lift = 0 := fun _ => rfl
  have name : ∀ v, (Terminal.mk .reference v).bare.lift = 0 := fun _ => rfl
  rw [← t.lift_bare]
  cases h with
  | value due eq => rw [eq, value, due.opened, Int.add_zero, ReadState.opened]
  | name due eq => rw [eq, name, due.opened, Int.add_zero, ReadState.opened]
  | openGroup due eq | openArray due eq | openObject due eq =>
    rw [eq, opener _ (by simp), due.opened, ReadState.opened]
    rfl
  | emptyArray eq | emptyObject eq =>
    rw [eq, closer _ (by simp), ReadState.opened, ReadState.opened]
    simp only [List.length_cons]
    omega
  | dot eq => rw [eq, other _ (by simp), Int.add_zero, ReadState.opened, ReadState.opened]
  | segment eq => rw [eq, name, Int.add_zero, ReadState.opened, ReadState.opened]
  | pipe settled eq =>
    rw [eq, other _ (by simp), settled.opened, Int.add_zero, ReadState.opened]
  | closeGroup settled eq | closeArray settled eq | closeObject settled eq =>
    rw [eq, closer _ (by simp), settled.opened, ReadState.opened]
    simp only [List.length_cons]
    omega
  | nextElement settled eq | nextEntry settled eq =>
    rw [eq, other _ (by simp), settled.opened, Int.add_zero, ReadState.opened]
    rfl
  | key h =>
    generalize t.terminal = a at h
    cases h with
    | text => rw [value, Int.add_zero, ReadState.opened, ReadState.opened]
    | name => rw [name, Int.add_zero, ReadState.opened, ReadState.opened]
  | colon eq =>
    rw [eq, other _ (by simp), Int.add_zero, ReadState.opened, ReadState.opened]
    rfl

/-- The same rule is read, with no fewer levels left to open. -/
structure Widened (ctx ctx' : ReadContext) : Prop where
  rule : ctx'.rule = ctx.rule
  levels : ctx.limits.depth + ctx'.depth ≤ ctx'.limits.depth + ctx.depth

variable {limits' : Limits}

theorem nest_eq_or_tooDeep (widened : ctx.Widened ctx') (frames : List Frame) (opener : Token)
    (inside : ReadState) : ctx.nest frames opener inside = ctx'.nest frames opener inside ∨
      ctx.nest frames opener inside = .fail (.atToken (.tooDeep ctx.limits.depth) opener) := by
  have levels := widened.levels
  unfold nest
  by_cases deep : ctx.limits.depth < ctx.depth + frames.length + 1
  · exact .inr (if_pos deep)
  · have allowed : ¬ctx'.limits.depth < ctx'.depth + frames.length + 1 := by omega
    exact .inl (by rw [if_neg deep, if_neg allowed])

theorem begin?_eq_or_tooDeep (widened : ctx.Widened ctx') (frames : List Frame) (p : Pending)
    (t : Token) : ctx.begin? frames p t = ctx'.begin? frames p t ∨
      ctx.begin? frames p t = some (.fail (.atToken (.tooDeep ctx.limits.depth) t)) := by
  unfold begin?
  split
  case h_4 | h_5 | h_6 =>
    exact (nest_eq_or_tooDeep widened frames t _).imp (congrArg some) (congrArg some)
  all_goals exact .inl rfl

theorem afterOperand_eq_or_tooDeep (widened : ctx.Widened ctx') (frames : List Frame)
    (p : Pending) (last : Expr) (t : Token) :
    ctx.afterOperand frames p last t = ctx'.afterOperand frames p last t ∨
      ctx.afterOperand frames p last t = .fail (.atToken (.tooDeep ctx.limits.depth) t) := by
  unfold afterOperand
  rw [widened.rule]
  split
  case isTrue => exact .inl rfl
  case isFalse =>
    rcases begin?_eq_or_tooDeep widened frames (p.push last) t with same | deep
    · exact .inl (by simp only [same])
    · exact .inr (by simp only [deep])

/-- A step with fewer levels left goes as with more, or fails for its limit. -/
theorem step_eq_or_tooDeep (widened : ctx.Widened ctx') (s : ReadState) (t : Token) :
    ctx.step s t = ctx'.step s t ∨
      ctx.step s t = .fail (.atToken (.tooDeep ctx.limits.depth) t) := by
  obtain ⟨frames, focus⟩ := s
  cases focus with
  | start fresh =>
    rcases begin?_eq_or_tooDeep widened frames {} t with same | deep
    · exact .inl (by simp only [step, start, same])
    · exact .inr (by simp only [step, start, deep])
  | stage p =>
    rcases begin?_eq_or_tooDeep widened frames p t with same | deep
    · exact .inl (by simp only [step, same])
    · exact .inr (by simp only [step, deep])
  | path p segments =>
    simp only [step]
    split
    · exact .inl rfl
    · exact afterOperand_eq_or_tooDeep widened frames p _ t
  | operand p last => exact afterOperand_eq_or_tooDeep widened frames p last t
  | segment | key | colon => exact .inl rfl

theorem Due.limits (h : { ctx with limits := limits' }.Due frames p s) : ctx.Due frames p s := by
  cases h with
  | start fresh => exact .start frames fresh
  | stage => exact .stage frames p
  | next settled goesOn => exact .next settled goesOn

theorem Shift.limits (h : { ctx with limits := limits' }.Shift t s s')
    (allowed : s.opened < s'.opened → ctx.depth + s.opened < ctx.limits.depth) :
    ctx.Shift t s s' := by
  cases h with
  | value due eq => exact .value due.limits eq
  | name due eq written => exact .name due.limits eq written
  | openGroup due eq =>
    rw [due.opened] at allowed
    exact .openGroup due.limits eq (allowed (Nat.lt_succ_self _))
  | openArray due eq =>
    rw [due.opened] at allowed
    exact .openArray due.limits eq (allowed (Nat.lt_succ_self _))
  | openObject due eq =>
    rw [due.opened] at allowed
    exact .openObject due.limits eq (allowed (Nat.lt_succ_self _))
  | emptyArray eq => exact .emptyArray eq
  | emptyObject eq => exact .emptyObject eq
  | dot eq => exact .dot eq
  | segment eq written notRoot => exact .segment eq written notRoot
  | pipe settled eq notPrimary notApplication => exact .pipe settled eq notPrimary notApplication
  | closeGroup settled eq => exact .closeGroup settled eq
  | nextElement settled eq => exact .nextElement settled eq
  | closeArray settled eq => exact .closeArray settled eq
  | nextEntry settled eq => exact .nextEntry settled eq
  | closeObject settled eq => exact .closeObject settled eq
  | key h writable => exact .key h writable
  | colon eq => exact .colon eq

end ReadContext

open ReadContext

variable {limits limits' : Limits} {source : String} {e : Expr}

end PipeExpr
