import PipeExpr.Reading.Step
import PipeExpr.Token.Scanner

set_option autoImplicit false

namespace PipeExpr

/-- Where the input ends: at the end of the source if there is one, else behind the last token. -/
def endOfInput (source : String) (tokens : List Token) : Location :=
  match source, tokens.getLast? with
  | "", some t => t.finish
  | source, _ => Location.endOf source

namespace ReadContext

def run (ctx : ReadContext) (inputEnd : Location) (s : ReadState) :
    List Token → Except ReadError (Expr × List Token)
  | [] =>
    match s.atEnd with
    | .ok result => .ok (result, [])
    | .error reason => .error (.atEnd reason inputEnd)
  | t :: rest =>
    match ctx.step s t with
    | .shift next => ctx.run inputEnd next rest
    | .done result => .ok (result, t :: rest)
    | .fail e => .error e

def read (ctx : ReadContext) (inputEnd : Location) (tokens : List Token) :
    Except ReadError (Expr × List Token) :=
  ctx.run inputEnd {} tokens

end ReadContext

/-- One rule read from the token number `position` on, with the number of the next token. -/
def readRule (ctx : ReadContext) (source : String) (tokens : List Token) (position : Nat) :
    Except ReadError (Expr × Nat) :=
  (ctx.read (endOfInput source tokens) (tokens.drop position)).map fun (result, rest) =>
    (result, tokens.length - rest.length)

def readTokens (limits : Limits) (source : String) (tokens : List Token) :
    Except ReadError Expr :=
  let inputEnd := endOfInput source tokens
  if tokens.isEmpty then .error (.atEnd .emptyExpression inputEnd)
  else
    match ReadContext.read { limits := limits } inputEnd tokens with
    | .ok (result, []) => .ok result
    | .ok (_, t :: _) => .error (.atToken (.unexpectedToken t.value) t)
    | .error e => .error e

def usualCeiling : Limits := ⟨250, by decide⟩

/-- All tokens read as one expression, no deeper than the ceiling, which is what reading can follow
    whatever the limits allow. An expression within the limits but beyond the ceiling is refused as
    a whole, at its first token. -/
def readBelowCeiling (limits : Limits) (source : String) (tokens : List Token)
    (ceiling : Limits := usualCeiling) : Except ReadError Expr :=
  if limits.depth ≤ ceiling.depth then readTokens limits source tokens
  else
    match readTokens ceiling source tokens with
    | .error ⟨.tooDeep limit, location, token⟩ =>
      match tokens with
      | first :: _ => .error (.atToken .beyondCeiling first)
      | [] => .error ⟨.tooDeep limit, location, token⟩
    | outcome => outcome

inductive SourceError where
  | scan (e : ScanError)
  | read (e : ReadError)
deriving DecidableEq

def SourceError.message : SourceError → String
  | scan e => e.message
  | read e => e.message

def readSourceBy (readAll : String → List Token → Except ReadError Expr) (source : String) :
    Except SourceError Expr :=
  match scan source with
  | .error e => .error (.scan e)
  | .ok tokens => (readAll source tokens).mapError .read

def readSource (limits : Limits) (source : String) : Except SourceError Expr :=
  readSourceBy (readTokens limits) source

/-- The expression that a source text stands for, as far as the ceiling lets it be followed. -/
def readSourceBelowCeiling (limits : Limits) (source : String)
    (ceiling : Limits := usualCeiling) : Except SourceError Expr :=
  readSourceBy (fun source tokens => readBelowCeiling limits source tokens ceiling) source

end PipeExpr
