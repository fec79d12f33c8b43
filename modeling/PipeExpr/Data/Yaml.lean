import PipeExpr.Data.Basic
import PipeExpr.Data.YamlScalar

set_option autoImplicit false

namespace PipeExpr

namespace Yaml

/-- Whether a key can stand before its colon on one line. With its type tag it must have fewer than
    128 characters. -/
def isSimpleKey (key : String) : Bool :=
  key.length + 5 < 128 && !key.isEmpty && !key.toList.any isBreak

def numeral (text : String) : String :=
  let cs := text.toList
  if cs.contains '.' || !cs.contains 'e' then text
  else
    let digits := cs.takeWhile (· ≠ 'e')
    String.ofList (digits ++ ['.', '0'] ++ cs.drop digits.length)

def float : Binary64 → String
  | .finite negative m => numeral (Binary64.finite negative m).text
  | .infinite negative => Binary64.sign negative ++ ".inf"
  | .notANumber => ".nan"

def indent (line : String) : String :=
  if line.isEmpty then line else "  " ++ line

def hang (mark : String) : List String → List String
  | [] => []
  | first :: others => (mark ++ first) :: others.map indent

end Yaml

def Scalar.yamlLines (m : Yaml.Margin) : Scalar → List String
  | .null => ["null"]
  | .bool true => ["true"]
  | .bool false => ["false"]
  | .int n => [toString n]
  | .float x => [Yaml.float x]
  | .string s => Yaml.textLines m s

namespace Data

open Yaml

def isBlockList : Data → Bool
  | list items => !items.isEmpty
  | _ => false

def isBlockRecord : Data → Bool
  | record fields => !fields.isEmpty
  | _ => false

def keyText (key : String) : String :=
  String.join (textLines .oneLine key)

/-- The margin of a field's value when the field begins at `column`. The items of a list stand as
    far in as the field's name. -/
def fieldMargin (column : Nat) (name : String) (value : Data) : Margin :=
  if !isSimpleKey name then .block (column + 2)
  else if value.isBlockList then .block column
  else if value.isBlockRecord then .block (column + 2)
  else { first := column + (keyText name).length + 2, others := column + 2 }

def fieldLines (column : Nat) (name : String) (value : Data) (lines : List String) : List String :=
  if !isSimpleKey name then
    hang "? " (textLines (.block (column + 2)) name) ++ hang ": " lines
  else if value.isBlockList then (keyText name ++ ":") :: lines
  else if value.isBlockRecord then (keyText name ++ ":") :: lines.map indent
  else hang (keyText name ++ ": ") lines

mutual

def yamlLines (m : Margin) : Data → List String
  | scalar v => v.yamlLines m
  | list [] => ["[]"]
  | list (x :: xs) => itemLines m.others (x :: xs)
  | record [] => ["\x7b\x7d"]
  | record (f :: fs) => allFieldLines m.others (f :: fs)

def itemLines (column : Nat) : List Data → List String
  | [] => []
  | x :: xs => hang "- " (x.yamlLines (.block (column + 2))) ++ itemLines column xs

def allFieldLines (column : Nat) : List (String × Data) → List String
  | [] => []
  | (name, x) :: xs =>
    fieldLines column name x (x.yamlLines (fieldMargin column name x)) ++ allFieldLines column xs

end

def yaml (d : Data) : String :=
  String.join ((d.yamlLines (.block 0)).map (· ++ "\n"))

end Data

end PipeExpr
