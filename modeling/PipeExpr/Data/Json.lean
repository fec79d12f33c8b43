import PipeExpr.Data.Basic
import PipeExpr.Text.Quoted

set_option autoImplicit false

namespace PipeExpr

namespace Text

def unitEscape (unit : Nat) : String :=
  String.ofList ('\\' :: 'u' :: hex 4 unit)

def jsonChar (c : Char) : String :=
  let n := c.toNat
  if c = '"' then "\\\""
  else if c = '\\' then "\\\\"
  else if c = '\n' then "\\n"
  else if c = '\r' then "\\r"
  else if c = '\t' then "\\t"
  else if n = 0x08 then "\\b"
  else if n = 0x0c then "\\f"
  else if 0x20 ≤ n ∧ n ≤ 0x7e then c.toString
  else if n < 0x10000 then unitEscape n
  else unitEscape (0xd800 + (n - 0x10000) / 0x400) ++ unitEscape (0xdc00 + (n - 0x10000) % 0x400)

def jsonString (s : String) : String :=
  "\"" ++ String.join (s.toList.map jsonChar) ++ "\""

def indentedLine (column : Nat) : String :=
  "\n" ++ String.ofList (List.replicate column ' ')

end Text

def Scalar.json : Scalar → String
  | .null => "null"
  | .bool true => "true"
  | .bool false => "false"
  | .string s => Text.jsonString s
  | v => v.text

namespace Data

open Text

mutual

/-- The JSON text of a value that stands `column` columns in. -/
def json (column : Nat) : Data → String
  | scalar v => v.json
  | list [] => "[]"
  | list (x :: xs) =>
    "[" ++ indentedLine (column + 2) ++ x.json (column + 2) ++ jsonItems column xs ++
      indentedLine column ++ "]"
  | record [] => "\x7b\x7d"
  | record ((name, x) :: xs) =>
    "\x7b" ++ indentedLine (column + 2) ++ jsonString name ++ ": " ++ x.json (column + 2) ++
      jsonFields column xs ++ indentedLine column ++ "\x7d"

def jsonItems (column : Nat) : List Data → String
  | [] => ""
  | x :: xs => "," ++ indentedLine (column + 2) ++ x.json (column + 2) ++ jsonItems column xs

def jsonFields (column : Nat) : List (String × Data) → String
  | [] => ""
  | (name, x) :: xs =>
    "," ++ indentedLine (column + 2) ++ jsonString name ++ ": " ++ x.json (column + 2) ++
      jsonFields column xs

end

end Data

end PipeExpr
