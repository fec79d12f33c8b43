import PipeExpr.Expr.Visit

set_option autoImplicit false

namespace PipeExpr

inductive Data where
  | scalar (value : Scalar)
  | list (items : List Data)
  | record (fields : List (String × Data))

namespace Data

def text (s : String) : Data :=
  scalar (.string s)

def field? (fields : List (String × Data)) (name : String) : Option Data :=
  (fields.find? (·.1 == name)).map (·.2)

mutual

def same : Data → Data → Bool
  | scalar v, scalar w => v.same w
  | list xs, list ys => sameList xs ys
  | record xs, record ys => xs.length == ys.length && sameFields xs ys
  | _, _ => false

def sameList : List Data → List Data → Bool
  | [], [] => true
  | x :: xs, y :: ys => x.same y && sameList xs ys
  | _, _ => false

def sameFields : List (String × Data) → List (String × Data) → Bool
  | [], _ => true
  | (name, x) :: xs, ys =>
    (match field? ys name with
      | some y => x.same y
      | none => false) && sameFields xs ys

end

end Data

namespace Expr

def literalData (type : String) (value : Data) : Data :=
  .record [("type", .text "literal"), ("valueType", .text type), ("value", value)]

mutual

def toData : Expr → Except ForeignValue Data
  | literal type value => .ok (literalData type.name (.scalar value))
  | array elements => do
    let items ← toDataList elements
    pure (literalData "array" (.list items))
  | object members => do
    let fields ← toDataMembers members
    pure (literalData "object" (.record fields))
  | reference path =>
    .ok (.record [("type", .text "reference"), ("path", .list (path.map .text))])
  | application function arguments => do
    let head ← function.toData
    let items ← toDataList arguments
    pure (.record [("type", .text "application"), ("function", head), ("arguments", .list items)])
  | pipeline stages => do
    let items ← toDataList stages
    pure (.record [("type", .text "pipeline"), ("stages", .list items)])
  | foreign v => .error ⟨v⟩

def toDataList : List Expr → Except ForeignValue (List Data)
  | [] => .ok []
  | e :: rest => do
    let item ← e.toData
    let items ← toDataList rest
    pure (item :: items)

def toDataMembers : List (String × Expr) → Except ForeignValue (List (String × Data))
  | [] => .ok []
  | (key, e) :: rest => do
    let item ← e.toData
    let items ← toDataMembers rest
    pure ((key, item) :: items)

end

end Expr

end PipeExpr
