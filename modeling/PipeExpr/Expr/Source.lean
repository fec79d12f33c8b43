import PipeExpr.Expr.Visit

/-!
# Writing expressions as source text

The source text of a tree, with no more parentheses than the grammar asks for: around an application
or a pipeline that is applied or is an argument, and around a pipeline that is a stage. Numbers are
written without sign and without exponent, so some have no source text.
-/

set_option autoImplicit false

namespace PipeExpr

-- Powers of natural numbers are the built-in ones, whatever else is in scope.
attribute [local instance (high)] instPowNat

inductive WriteError where
  | foreign (value : Scalar)
  | nonFinite (value : Binary64)
  | negative (value : Scalar)
  | tooLarge
  | notNumber (value : Scalar)
  | notText (value : Scalar)
deriving DecidableEq

def WriteError.message : WriteError → String
  | foreign v => ForeignValue.message ⟨v⟩
  | nonFinite x => "Number " ++ x.text ++ " has no source representation"
  | negative v =>
    (v.text?.map fun text => "Negative number " ++ text ++ " has no source representation").getD
      Text.tooManyDigits
  | tooLarge => "int too large to convert to float"
  | notNumber v => "'<' not supported between instances of '" ++ v.typeName ++ "' and 'int'"
  | notText v => "'" ++ v.typeName ++ "' object has no attribute 'replace'"

/-- The least integer that no finite floating-point number is near to: `2 ^ 1024` less half of the
    distance between neighbours below it. -/
def integerLimit : Nat := 2 ^ (1024 : Nat) - 2 ^ (970 : Nat)

def Scalar.numeral : Scalar → Except WriteError (List Char)
  | .float (.finite false m) => .ok m.shortest.positional
  | .float (.finite true m) => .error (.negative (.float (.finite true m)))
  | .float x => .error (.nonFinite x)
  | .int n =>
    if n < 0 then .error (.negative (.int n))
    else if integerLimit ≤ n.toNat then .error .tooLarge
    else .ok (Nat.toDigits 10 n.toNat)
  | .bool b => .ok (Scalar.bool b).text.toList
  | v => .error (.notNumber v)

def quotation (cs : List Char) : List Char :=
  '"' :: cs.flatMap (fun c => if c = '"' ∨ c = '\\' then ['\\', c] else [c]) ++ ['"']

def ScalarType.write (value : Scalar) : ScalarType → Except WriteError (List Char)
  | null => .ok ['n', 'u', 'l', 'l']
  | boolean => .ok (if value.isTruthy then ['t', 'r', 'u', 'e'] else ['f', 'a', 'l', 's', 'e'])
  | number => value.numeral
  | string =>
    match value with
    | .string s => .ok (quotation s.toList)
    | v => .error (.notText v)

def grouped (needed : Bool) (text : List Char) : List Char :=
  if needed then '(' :: text ++ [')'] else text

def joined (separator : List Char) : List (List Char) → List Char
  | [] => []
  | [text] => text
  | text :: rest => text ++ separator ++ joined separator rest

namespace Expr

mutual

/-- The source text of a tree. Of several obstacles the leftmost is reported. -/
def write : Expr → Except WriteError (List Char)
  | literal type value => type.write value
  | array elements => do
    let texts ← writeList (fun _ => false) elements
    pure ('[' :: joined [',', ' '] texts ++ [']'])
  | object members => do
    let texts ← writeMembers members
    pure ('{' :: joined [',', ' '] texts ++ ['}'])
  | reference path => .ok (joined ['.'] (path.map String.toList))
  | application function arguments => do
    let head ← function.write
    let texts ← writeList (fun e => e.isApplication || e.isPipeline) arguments
    pure (joined [' '] (grouped (function.isApplication || function.isPipeline) head :: texts))
  | pipeline stages => do
    let texts ← writeList isPipeline stages
    pure (joined [' ', '|', ' '] texts)
  | foreign v => .error (.foreign v)

def writeList (group : Expr → Bool) : List Expr → Except WriteError (List (List Char))
  | [] => .ok []
  | e :: rest => do
    let text ← e.write
    let texts ← writeList group rest
    pure (grouped (group e) text :: texts)

def writeMembers : List (String × Expr) → Except WriteError (List (List Char))
  | [] => .ok []
  | (key, e) :: rest => do
    let text ← e.write
    let texts ← writeMembers rest
    pure ((quotation key.toList ++ [':', ' '] ++ text) :: texts)

end

def source (e : Expr) : Except WriteError String :=
  e.write.map String.ofList

end Expr

end PipeExpr
