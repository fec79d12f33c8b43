import PipeExpr.Text.DecimalDigit
import PipeExpr.Token.Basic

/-!
# Lexemes

The patterns that token texts follow, and the values of such texts. A pattern is tried on what is
left of the source and takes the longest piece at its head that it can; the patterns are tried in
the order of `Pattern.all`.
-/

set_option autoImplicit false

namespace PipeExpr

def isStructural (c : Char) : Bool :=
  ['(', ')', '[', ']', '{', '}', '|', '.', ',', ':'].contains c

def isWordStart (c : Char) : Bool :=
  c.isAlpha || c == '_'

def isWordPart (c : Char) : Bool :=
  c.isAlphanum || c == '_'

def digitRun (cs : List Char) : Nat :=
  (cs.takeWhile Text.isDigit).length

/-- The number of characters up to and with the next double quote that no backslash covers, added to
    `count`. A backslash covers the character behind it, which must not be a line feed. -/
def closingQuote? (count : Nat) : List Char → Option Nat
  | [] => none
  | '"' :: _ => some (count + 1)
  | '\\' :: c :: rest => if c = '\n' then none else closingQuote? (count + 2) rest
  | _ :: rest => closingQuote? (count + 1) rest

inductive Pattern where
  | symbol
  | decimal
  | integer
  | quotation
  | word
  | root
deriving DecidableEq

namespace Pattern

/-- All patterns, in the order in which they are tried: a decimal numeral before the integer that it
    begins with. -/
def all : List Pattern :=
  [symbol, decimal, integer, quotation, word, root]

def length? : Pattern → List Char → Option Nat
  | symbol, c :: _ => if isStructural c then some 1 else none
  | decimal, cs =>
    let whole := digitRun cs
    match cs.drop whole with
    | '.' :: rest =>
      let fraction := digitRun rest
      if whole = 0 ∨ fraction = 0 then none else some (whole + 1 + fraction)
    | _ => none
  | integer, cs => if digitRun cs = 0 then none else some (digitRun cs)
  | quotation, '"' :: cs => closingQuote? 1 cs
  | word, c :: cs => if isWordStart c then some ((cs.takeWhile isWordPart).length + 1) else none
  | root, '@' :: _ => some 1
  | _, _ => none

def first? (cs : List Char) : Option (Pattern × Nat) :=
  all.findSome? fun p => (p.length? cs).map fun n => (p, n)

end Pattern

/-- What a text means between its quotes: a backslash before a double quote or another backslash is
    dropped, any other is kept. -/
def unescape : List Char → List Char
  | '\\' :: '"' :: rest => '"' :: unescape rest
  | '\\' :: '\\' :: rest => '\\' :: unescape rest
  | c :: rest => c :: unescape rest
  | [] => []

def decimalOf (text : List Char) : Decimal :=
  let whole := text.takeWhile (· ≠ '.')
  let fraction := text.drop (whole.length + 1)
  ⟨Text.digitsValue (whole ++ fraction), -(fraction.length : Int)⟩

def keyword? (word : String) : Option Scalar :=
  if word = "true" then some (.bool true)
  else if word = "false" then some (.bool false)
  else if word = "null" then some .null
  else none

def Pattern.read? (text : List Char) : Pattern → Option (TokenKind × Scalar)
  | symbol => some (.special, .string (String.ofList text))
  | decimal => (decimalOf text).nearest?.map fun m => (.value, .float (.finite false m))
  | integer =>
    if text.length ≤ maxIntegerDigits then some (.value, .int (Text.digitsValue text)) else none
  | quotation => some (.value, .string (String.ofList (unescape (text.drop 1).dropLast)))
  | word =>
    let name := String.ofList text
    match keyword? name with
    | some v => some (.value, v)
    | none => some (.reference, .string name)
  | root => some (.reference, .string (String.ofList text))

end PipeExpr
