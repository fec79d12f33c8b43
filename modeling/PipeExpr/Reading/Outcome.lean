import PipeExpr.Reading.Run

set_option autoImplicit false

namespace PipeExpr

abbrev ReadOutcome := Except SourceError Expr

namespace ReadOutcome

inductive PartsError where
  | neither
  | both
deriving DecidableEq

def PartsError.message : PartsError → String
  | neither | both => "ParseResult needs exactly one of expression or error"

def ofParts (expression : Option Expr) (error : Option SourceError) :
    Except PartsError ReadOutcome :=
  match expression, error with
  | some e, none => .ok (.ok e)
  | none, some e => .ok (.error e)
  | none, none => .error .neither
  | some _, some _ => .error .both

def expression? : ReadOutcome → Option Expr
  | .ok e => some e
  | .error _ => none

def error? : ReadOutcome → Option SourceError
  | .ok _ => none
  | .error e => some e

theorem ofParts_parts (o : ReadOutcome) : ofParts o.expression? o.error? = .ok o := by
  cases o <;> rfl

end ReadOutcome

end PipeExpr
