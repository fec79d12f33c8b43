import PipeExpr.Scalar
import PipeExpr.Text.Location

set_option autoImplicit false

namespace PipeExpr

inductive TokenKind where
  | value
  | reference
  | special
deriving DecidableEq

def TokenKind.name : TokenKind → String
  | value => "VALUE"
  | reference => "REFERENCE"
  | special => "SPECIAL"

structure Token where
  kind : TokenKind
  value : Scalar
  start : Location
  text : String := ""
deriving DecidableEq

namespace Token

def finish (t : Token) : Location :=
  t.start.past t.text.toList

/-- Whether the token is structural, and one of `symbols` if any are given. -/
def isSpecial (t : Token) (symbols : List String) : Bool :=
  t.kind == .special && (symbols.isEmpty || symbols.any fun s => t.value.same (.string s))

def same (t u : Token) : Bool :=
  t.kind == u.kind && t.value.same u.value && t.start == u.start

def summary (t : Token) : String :=
  "Token(" ++ t.kind.name ++ ", " ++ t.value.quoted ++ ", pos=" ++ toString t.start.position ++ ")"

end Token

end PipeExpr
