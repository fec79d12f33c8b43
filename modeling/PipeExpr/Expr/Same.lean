import PipeExpr.Expr.Basic

set_option autoImplicit false

namespace PipeExpr.Expr

def member? (members : List (String × Expr)) (key : String) : Option Expr :=
  (members.find? (·.1 == key)).map (·.2)

mutual

def same : Expr → Expr → Bool
  | literal t v, literal u w => t == u && v.same w
  | array xs, array ys => sameList xs ys
  | object xs, object ys => xs.length == ys.length && sameMembers xs ys
  | reference p, reference q => p == q
  | application f xs, application g ys => f.same g && sameList xs ys
  | pipeline xs, pipeline ys => sameList xs ys
  | foreign v, foreign w => v.same w
  | _, _ => false

def sameList : List Expr → List Expr → Bool
  | [], [] => true
  | x :: xs, y :: ys => x.same y && sameList xs ys
  | _, _ => false

def sameMembers : List (String × Expr) → List (String × Expr) → Bool
  | [], _ => true
  | (key, x) :: xs, ys =>
    (match member? ys key with
      | some y => x.same y
      | none => false) && sameMembers xs ys

end

end PipeExpr.Expr
