import PipeExpr.Expr.Basic

set_option autoImplicit false

namespace PipeExpr

structure ForeignValue where
  value : Scalar
deriving DecidableEq

def ForeignValue.message (e : ForeignValue) : String :=
  "Unknown node type: " ++ e.value.typeName

namespace Expr

def parts? : Expr → Except ForeignValue (List Expr)
  | literal .. | reference _ => .ok []
  | array elements => .ok elements
  | object members => .ok (members.map (·.2))
  | application function arguments => .ok (function :: arguments)
  | pipeline stages => .ok stages
  | foreign v => .error ⟨v⟩

theorem sizeList_append (xs ys : List Expr) :
    sizeList (xs ++ ys) = sizeList xs + sizeList ys := by
  induction xs with
  | nil => simp [sizeList]
  | cons x xs ih => simp [sizeList, ih, Nat.add_assoc]

theorem sizeList_values (members : List (String × Expr)) :
    sizeList (members.map (·.2)) = sizeMembers members := by
  induction members with
  | nil => rfl
  | cons m rest ih => simp [sizeList, sizeMembers, ih]

theorem sizeList_parts {e : Expr} {ps : List Expr} (h : e.parts? = .ok ps) :
    sizeList ps + 1 = e.size := by
  cases e <;> simp_all only [parts?, Except.ok.injEq, reduceCtorEq] <;> subst h <;>
    simp [sizeList, size, sizeList_values]

/-- The nodes of the trees on a stack, its top first. -/
def visitAll (stack : List Expr) : Except ForeignValue (List Expr) :=
  match stack with
  | [] => .ok []
  | e :: rest =>
    match _met : e.parts? with
    | .error err => .error err
    | .ok ps => (visitAll (ps ++ rest)).map (e :: ·)
termination_by sizeList stack
decreasing_by
  have smaller := sizeList_parts _met
  simp only [sizeList, sizeList_append]
  omega

def visit (e : Expr) : Except ForeignValue (List Expr) :=
  visitAll [e]

def path? : Expr → Option (List String)
  | reference path => some path
  | _ => none

def paths (e : Expr) : Except ForeignValue (List (List String)) :=
  e.visit.map fun nodes => nodes.filterMap path?

end Expr

end PipeExpr
