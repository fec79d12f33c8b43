set_option autoImplicit false

namespace PipeExpr.Text

def commonStart : List Char → List Char → Nat
  | a :: as, b :: bs => if a = b then commonStart as bs + 1 else 0
  | _, _ => 0

/-- Where the longest common stretch begins in each text, and its length. Of several, the one that
    begins first in the first text, and then in the second. -/
def longestStretch (as bs : List Char) : Nat × Nat × Nat :=
  let starts := (List.range as.length).flatMap fun i => (List.range bs.length).map fun j => (i, j)
  starts.foldl (fun best (i, j) =>
    let length := commonStart (as.drop i) (bs.drop j)
    if best.2.2 < length then (i, j, length) else best) (0, 0, 0)

/-- The number of characters in common stretches. Each stretch shortens the texts, so as many steps
    as the first has characters are enough. -/
def commonLength : Nat → List Char → List Char → Nat
  | 0, _, _ => 0
  | steps + 1, as, bs =>
    let (i, j, length) := longestStretch as bs
    if length = 0 then 0
    else
      length + commonLength steps (as.take i) (bs.take j) +
        commonLength steps (as.drop (i + length)) (bs.drop (j + length))

def isLike (a b : String) : Bool :=
  3 * (a.length + b.length) ≤ 10 * commonLength a.length a.toList b.toList

example : isLike "--format" "--fromat" = true := by decide +kernel
example : isLike "--format" "--bogus" = false := by decide +kernel

end PipeExpr.Text
