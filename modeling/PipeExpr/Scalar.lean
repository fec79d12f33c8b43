import PipeExpr.Binary64.Numeral
import PipeExpr.Text.Integer
import PipeExpr.Text.Quoted

set_option autoImplicit false

namespace PipeExpr

inductive Scalar where
  | null
  | bool (value : Bool)
  | int (value : Int)
  | float (value : Binary64)
  | string (value : String)
deriving DecidableEq

inductive Measure where
  | finite (units : Int)
  | infinite (negative : Bool)
deriving DecidableEq

def Binary64.measure? : Binary64 → Option Measure
  | .finite false m => some (.finite m.units)
  | .finite true m => some (.finite (-m.units))
  | .infinite negative => some (.infinite negative)
  | .notANumber => none

namespace Scalar

def measure? : Scalar → Option Measure
  | bool b => some (.finite (if b then Magnitude.unitsPerOne else 0))
  | int n => some (.finite (n * Magnitude.unitsPerOne))
  | float x => x.measure?
  | null | string _ => none

/-- Sameness by value. What is not a number is the same as nothing, not even as itself. -/
def same : Scalar → Scalar → Bool
  | null, null => true
  | string s, string t => s == t
  | v, w =>
    match v.measure?, w.measure? with
    | some x, some y => x == y
    | _, _ => false

def isTruthy : Scalar → Bool
  | null => false
  | bool b => b
  | int n => n != 0
  | float x => x.measure? != some (.finite 0)
  | string s => s != ""

def text : Scalar → String
  | null => "None"
  | bool true => "True"
  | bool false => "False"
  | int n => toString n
  | float x => x.text
  | string s => s

/-- The scalar as it is written into a name or a message. An integer may be too long for that. -/
def text? : Scalar → Option String
  | int n => Text.numeral? n
  | v => some v.text

def quoted : Scalar → String
  | string s => Text.quoted s
  | v => v.text

theorem text_of_text? {v : Scalar} {written : String} (h : v.text? = some written) :
    v.text = written := by
  cases v with
  | int n =>
    rw [text?, Text.numeral?] at h
    split at h <;> cases h
    rfl
  | null | bool | float | string => exact Option.some.inj h

def typeName : Scalar → String
  | null => "NoneType"
  | bool _ => "bool"
  | int _ => "int"
  | float _ => "float"
  | string _ => "str"

end Scalar

end PipeExpr
