import PipeExpr.Limits
import PipeExpr.Reading.Error
import PipeExpr.Reading.State

set_option autoImplicit false

namespace PipeExpr

inductive Rule where
  | pipeline
  | application
  | primary
deriving DecidableEq

inductive ReadStep where
  | shift (next : ReadState)
  | done (result : Expr)
  | fail (e : ReadError)

/-- What stays the same while a rule is read: the rule, the limits, and how many brackets count as
    open before its first token. -/
structure ReadContext where
  rule : Rule := .pipeline
  limits : Limits := {}
  depth : Nat := 0

namespace ReadContext

def nest (ctx : ReadContext) (frames : List Frame) (opener : Token) (inside : ReadState) :
    ReadStep :=
  if ctx.limits.depth < ctx.depth + frames.length + 1 then
    .fail (.atToken (.tooDeep ctx.limits.depth) opener)
  else .shift inside

def begin? (ctx : ReadContext) (frames : List Frame) (p : Pending) (t : Token) :
    Option ReadStep :=
  match t.role with
  | .value v => some (.shift ⟨frames, .operand p (.ofScalar v)⟩)
  | .name segment _ => some (.shift ⟨frames, .path p [segment]⟩)
  | .overlong => some (.fail (.atToken .overlongName t))
  | .symbol .openGroup => some (ctx.nest frames t ⟨.group t p :: frames, .start true⟩)
  | .symbol .openArray => some (ctx.nest frames t ⟨.array [] p :: frames, .start true⟩)
  | .symbol .openObject => some (ctx.nest frames t ⟨frames, .key true [] p⟩)
  | _ => none

/-- The first operand of a pipeline is due. Only right behind its bracket may an array be closed. -/
def start (ctx : ReadContext) (frames : List Frame) (fresh : Bool) (t : Token) : ReadStep :=
  match ctx.begin? frames {} t with
  | some step => step
  | none =>
    match fresh, frames, t.role with
    | true, .group opener _ :: _, .symbol .closeGroup => .fail (.atToken .emptyGroup opener)
    | true, .array _ outer :: frames, .symbol .closeArray =>
      .shift ⟨frames, .operand outer (.array [])⟩
    | _, _, .symbol .pipe => .fail (.atToken .nothingBeforePipe t)
    | _, _, _ => .fail (.atToken (.unexpectedToken t.value) t)

def close (frames : List Frame) (result : Expr) (t : Token) : ReadStep :=
  match frames with
  | [] => .done result
  | .group opener outer :: frames =>
    match t.role with
    | .symbol .closeGroup => .shift ⟨frames, .operand outer result⟩
    | _ => .fail (.atToken (.unclosedGroup opener.start.position) t)
  | .array elements outer :: frames =>
    match t.role with
    | .symbol .comma => .shift ⟨.array (result :: elements) outer :: frames, .start false⟩
    | .symbol .closeArray =>
      .shift ⟨frames, .operand outer (.array (result :: elements).reverse)⟩
    | _ => .fail (.atToken .noArraySeparator t)
  | .object members key outer :: frames =>
    match t.role with
    | .symbol .comma => .shift ⟨frames, .key false (putMember members key result) outer⟩
    | .symbol .closeObject =>
      .shift ⟨frames, .operand outer (.object (putMember members key result))⟩
    | _ => .fail (.atToken .noObjectSeparator t)

/-- The operand `last` is complete. Outside all brackets the rule decides whether more follows. -/
def afterOperand (ctx : ReadContext) (frames : List Frame) (p : Pending) (last : Expr)
    (t : Token) : ReadStep :=
  if ctx.rule = .primary ∧ frames = [] then .done last
  else
    match ctx.begin? frames (p.push last) t with
    | some step => step
    | none =>
      if t.role = .symbol .pipe ∧ ¬(ctx.rule = .application ∧ frames = []) then
        .shift ⟨frames, .stage (p.endStage last)⟩
      else close frames (p.pipeline last) t

def key (frames : List Frame) (fresh : Bool) (members : List (String × Expr)) (outer : Pending)
    (t : Token) : ReadStep :=
  match fresh, t.role with
  | _, .value (.string k) => .shift ⟨frames, .colon members k outer⟩
  | _, .name k true => .shift ⟨frames, .colon members k outer⟩
  | _, .overlong => .fail (.atToken .overlongName t)
  | true, .symbol .closeObject => .shift ⟨frames, .operand outer (.object [])⟩
  | _, _ => .fail (.atToken .noKey t)

def step (ctx : ReadContext) (s : ReadState) (t : Token) : ReadStep :=
  match s.focus with
  | .start fresh => ctx.start s.frames fresh t
  | .stage p =>
    match ctx.begin? s.frames p t with
    | some step => step
    | none => .fail (.atToken .nothingAfterPipe t)
  | .path p segments =>
    if t.role = .symbol .dot then .shift ⟨s.frames, .segment p segments⟩
    else ctx.afterOperand s.frames p (.reference segments.reverse) t
  | .segment p segments =>
    match t.role with
    | .name segment true => .shift ⟨s.frames, .path p (segment :: segments)⟩
    | .overlong => .fail (.atToken .overlongName t)
    | _ => .fail (.atToken .noSegmentAfterDot t)
  | .operand p last => ctx.afterOperand s.frames p last t
  | .key fresh members outer => key s.frames fresh members outer t
  | .colon members k outer =>
    match t.role with
    | .symbol .colon => .shift ⟨.object members k outer :: s.frames, .start false⟩
    | _ => .fail (.atToken .noColon t)

end ReadContext

def Frame.atEnd (frames : List Frame) (result : Expr) : Except ReadReason Expr :=
  match frames with
  | [] => .ok result
  | .group opener _ :: _ => .error (.unclosedGroup opener.start.position)
  | .array .. :: _ => .error .unterminatedArray
  | .object .. :: _ => .error .unterminatedObject

def ReadState.atEnd (s : ReadState) : Except ReadReason Expr :=
  match s.focus with
  | .start _ => .error .unexpectedEnd
  | .stage _ => .error .nothingAfterPipe
  | .path p segments => Frame.atEnd s.frames (p.pipeline (.reference segments.reverse))
  | .segment .. => .error .noSegmentAfterDot
  | .operand p last => Frame.atEnd s.frames (p.pipeline last)
  | .key .. => .error .noKey
  | .colon .. => .error .noColon

end PipeExpr
