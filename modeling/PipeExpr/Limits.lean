import PipeExpr.Text.Integer
import PipeExpr.Text.Quoted

set_option autoImplicit false

namespace PipeExpr

inductive LimitError where
  | belowOne (depth : Int)
  | notAnInteger (text : String)
deriving DecidableEq

def LimitError.message : LimitError → String
  | belowOne depth =>
    ((Text.numeral? depth).map ("max_depth must be at least 1, got " ++ ·)).getD Text.tooManyDigits
  | notAnInteger text => "PIPEQL_MAX_DEPTH must be an integer, got " ++ Text.quoted text

structure Limits where
  depth : Nat := 100
  one_le : 1 ≤ depth := by decide

namespace Limits

def ofDepth? (depth : Int) : Except LimitError Limits :=
  if h : 1 ≤ depth then .ok ⟨depth.toNat, by omega⟩ else .error (.belowOne depth)

def ofEnvironment? (setting : Option String) : Except LimitError Limits :=
  match setting with
  | none | some "" => .ok {}
  | some text =>
    match Text.integer? text with
    | some depth => ofDepth? depth
    | none => .error (.notAnInteger text)

end Limits

end PipeExpr
