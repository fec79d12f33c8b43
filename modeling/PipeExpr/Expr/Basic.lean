import PipeExpr.Scalar

/-!
# Expressions

The tree of an expression: literals, references, applications of one expression to others, and
pipelines. Parentheses leave no trace in it. The type also holds trees that no source text stands
for, such as a literal whose value does not match its type or a bare scalar in the place of an
expression, because trees can be put together by hand.
-/

set_option autoImplicit false

namespace PipeExpr

inductive ScalarType where
  | string
  | number
  | boolean
  | null
deriving DecidableEq

def ScalarType.name : ScalarType → String
  | string => "string"
  | number => "number"
  | boolean => "boolean"
  | null => "null"

inductive Expr where
  | literal (type : ScalarType) (value : Scalar)
  | array (elements : List Expr)
  | object (members : List (String × Expr))
  | reference (path : List String)
  | application (function : Expr) (arguments : List Expr)
  | pipeline (stages : List Expr)
  /-- A bare scalar where an expression should be. -/
  | foreign (value : Scalar)

def rootMarker : String := "@"

def Expr.ofScalar : Scalar → Expr
  | .null => .literal .null .null
  | .bool b => .literal .boolean (.bool b)
  | .int n => .literal .number (.int n)
  | .float x => .literal .number (.float x)
  | .string s => .literal .string (.string s)

/-- Members with one more: a new key goes to the end, a known key keeps its place and takes the new
    value. -/
def putMember (members : List (String × Expr)) (key : String) (value : Expr) :
    List (String × Expr) :=
  match members with
  | [] => [(key, value)]
  | (k, v) :: rest => if k = key then (k, value) :: rest else (k, v) :: putMember rest key value

namespace Expr

def ofEntries (entries : List (String × Expr)) : Expr :=
  object (entries.foldl (fun members (key, value) => putMember members key value) [])

def applied (function : Expr) (arguments : List Expr) : Expr :=
  if arguments.isEmpty then function else application function arguments

def piped (first : Expr) (others : List Expr) : Expr :=
  if others.isEmpty then first else pipeline (first :: others)

def isApplication : Expr → Bool
  | application .. => true
  | _ => false

def isPipeline : Expr → Bool
  | pipeline _ => true
  | _ => false

def isRooted : Expr → Bool
  | reference (first :: _) => first == rootMarker
  | _ => false

mutual

def size : Expr → Nat
  | array elements => sizeList elements + 1
  | object members => sizeMembers members + 1
  | application function arguments => function.size + sizeList arguments + 1
  | pipeline stages => sizeList stages + 1
  | literal .. | reference _ | foreign _ => 1

def sizeList : List Expr → Nat
  | [] => 0
  | e :: rest => e.size + sizeList rest

def sizeMembers : List (String × Expr) → Nat
  | [] => 0
  | (_, e) :: rest => e.size + sizeMembers rest

end

end Expr

end PipeExpr
