import PipeExpr.Expr.Basic

set_option autoImplicit false

namespace PipeExpr

inductive BuildError where
  | emptyPath
  | noArguments
  | fewStages
  | noStages
  | unknownType (name : String)
  | listValue
deriving DecidableEq

def BuildError.message : BuildError → String
  | emptyPath => "Reference path must not be empty"
  | noArguments => "Application requires at least one argument"
  | fewStages => "Pipeline requires at least two stages"
  | noStages => "Pipeline requires at least one stage"
  | unknownType name => Text.quoted name ++ " is not a valid ValueType"
  | listValue => "Unsupported literal value: []"

inductive LiteralType where
  | scalar (type : ScalarType)
  | array
  | object
deriving DecidableEq

namespace LiteralType

def name : LiteralType → String
  | scalar type => type.name
  | array => "array"
  | object => "object"

def all : List LiteralType :=
  [scalar .string, scalar .number, scalar .boolean, array, object, scalar .null]

def ofName? (name : String) : Except BuildError LiteralType :=
  match all.find? (·.name == name) with
  | some type => .ok type
  | none => .error (.unknownType name)

end LiteralType

namespace Expr

def mkReference (path : List String) : Except BuildError Expr :=
  if path.isEmpty then .error .emptyPath else .ok (reference path)

def mkApplication (function : Expr) (arguments : List Expr) : Except BuildError Expr :=
  if arguments.isEmpty then .error .noArguments else .ok (application function arguments)

def mkPipeline (stages : List Expr) : Except BuildError Expr :=
  if stages.length < 2 then .error .fewStages else .ok (pipeline stages)

/-- The pipeline of the stages; a lone stage stands for itself. -/
def ofStages : List Expr → Except BuildError Expr
  | [] => .error .noStages
  | first :: others => .ok (piped first others)

end Expr

end PipeExpr
