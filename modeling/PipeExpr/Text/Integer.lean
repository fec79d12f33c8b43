import PipeExpr.Text.Blank
import PipeExpr.Text.DecimalDigit

set_option autoImplicit false

namespace PipeExpr

/-- The most digits that an integer is read from, zeros at the front included, or written with. -/
def maxIntegerDigits : Nat := 4300

namespace Text

def isNumberBlank (c : Char) : Bool :=
  isBlank c && !(0x1c ≤ c.toNat && c.toNat ≤ 0x1f)

/-- The digits of a text that holds digits and single underscores between them, and nothing else. -/
def plainDigits? : List Char → Option (List Char)
  | [] => none
  | [c] => if isDigit c then some [c] else none
  | c :: '_' :: rest => if isDigit c then (plainDigits? rest).map (c :: ·) else none
  | c :: rest => if isDigit c then (plainDigits? rest).map (c :: ·) else none

def natural? (cs : List Char) : Option Nat :=
  match plainDigits? cs with
  | some digits => if digits.length ≤ maxIntegerDigits then some (digitsValue digits) else none
  | none => none

def integer? (s : String) : Option Int :=
  match trimBy isNumberBlank s.toList with
  | '-' :: rest => (natural? rest).map fun n => -(n : Int)
  | '+' :: rest => (natural? rest).map fun n => (n : Int)
  | cs => (natural? cs).map fun n => (n : Int)

def numeral? (n : Int) : Option String :=
  if (Nat.toDigits 10 n.natAbs).length ≤ maxIntegerDigits then some (toString n) else none

def tooManyDigits : String :=
  "Exceeds the limit (4300 digits) for integer string conversion; " ++
    "use sys.set_int_max_str_digits() to increase the limit"

end Text

end PipeExpr
