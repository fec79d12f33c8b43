import PipeExpr.Expr.Basic
import PipeExpr.Token.Basic

/-!
# The state of reading

An expression is read one token at a time, without looking ahead. What has been read is kept in a
stack of open brackets and in a focus, which says what may come next. Lists of parts already read
are kept with the latest part first.

The language is

    pipeline     = application ("|" application)*
    application  = primary primary*
    primary      = value | reference | "(" pipeline ")"
                 | "[" (pipeline ("," pipeline)*)? "]"
                 | "\x7b" (key ":" pipeline ("," key ":" pipeline)*)? "\x7d"
    reference    = name ("." segment)*
-/

set_option autoImplicit false

namespace PipeExpr

inductive Symbol where
  | openGroup
  | closeGroup
  | openArray
  | closeArray
  | openObject
  | closeObject
  | pipe
  | dot
  | comma
  | colon
deriving DecidableEq

def Symbol.ofText? : String → Option Symbol
  | "(" => some openGroup
  | ")" => some closeGroup
  | "[" => some openArray
  | "]" => some closeArray
  | "\x7b" => some openObject
  | "\x7d" => some closeObject
  | "|" => some pipe
  | "." => some dot
  | "," => some comma
  | ":" => some colon
  | _ => none

inductive Role where
  | value (v : Scalar)
  /-- A name, and whether it may follow a dot or be a key. -/
  | name (segment : String) (isSegment : Bool)
  /-- A name that is an integer too long to be written. -/
  | overlong
  | symbol (s : Symbol)
  | stray
deriving DecidableEq

def Token.role (t : Token) : Role :=
  match t.kind with
  | .value => .value t.value
  | .reference =>
    match t.value.text? with
    | some name => .name name (!t.value.same (.string rootMarker))
    | none => .overlong
  | .special =>
    match t.value with
    | .string s =>
      match Symbol.ofText? s with
      | some symbol => .symbol symbol
      | none => .stray
    | _ => .stray

/-- The part of a pipeline that lies before the operand now being read: the stages that are
    complete, and the operands of the application under way. -/
structure Pending where
  stages : List Expr := []
  operands : List Expr := []

namespace Pending

def push (p : Pending) (operand : Expr) : Pending :=
  { p with operands := operand :: p.operands }

def application (p : Pending) (last : Expr) : Expr :=
  match p.operands.reverse with
  | [] => last
  | function :: arguments => .application function (arguments ++ [last])

def endStage (p : Pending) (last : Expr) : Pending :=
  ⟨p.application last :: p.stages, []⟩

def pipeline (p : Pending) (last : Expr) : Expr :=
  match p.stages.reverse with
  | [] => p.application last
  | first :: others => .pipeline (first :: others ++ [p.application last])

end Pending

/-- An open bracket with what was read between it and the pipeline now being read; `outer` is the
    pipeline that the bracket is part of. -/
inductive Frame where
  | group (opener : Token) (outer : Pending)
  | array (elements : List Expr) (outer : Pending)
  | object (members : List (String × Expr)) (key : String) (outer : Pending)

/-- What may come next; `fresh` right behind the opening bracket. -/
inductive Focus where
  | start (fresh : Bool)
  | stage (p : Pending)
  | path (p : Pending) (segments : List String)
  | segment (p : Pending) (segments : List String)
  | operand (p : Pending) (last : Expr)
  | key (fresh : Bool) (members : List (String × Expr)) (outer : Pending)
  | colon (members : List (String × Expr)) (key : String) (outer : Pending)

structure ReadState where
  frames : List Frame := []
  focus : Focus := .start false

end PipeExpr
