set_option autoImplicit false

namespace PipeExpr.Yaml

def isDigit (c : Char) : Bool :=
  '0' ≤ c && c ≤ '9'

def isDigitPart (c : Char) : Bool :=
  isDigit c || c == '_'

def isHexPart (c : Char) : Bool :=
  isDigitPart c || ('a' ≤ c && c ≤ 'f') || ('A' ≤ c && c ≤ 'F')

def dropSign : List Char → List Char
  | '+' :: rest => rest
  | '-' :: rest => rest
  | cs => cs

def isRun (p : Char → Bool) (cs : List Char) : Bool :=
  !cs.isEmpty && cs.all p

def isNumeral (cs : List Char) : Bool :=
  cs.head?.any isDigit && cs.all isDigitPart

def colonPieces (cs : List Char) : List (List Char) :=
  cs.splitOn ':'

def isSixtieth : List Char → Bool
  | [d] => isDigit d
  | [t, d] => '0' ≤ t && t ≤ '5' && isDigit d
  | _ => false

def isSexagesimal (head : List Char → Bool) (cs : List Char) : Bool :=
  match colonPieces cs with
  | first :: others => head first && !others.isEmpty && others.all isSixtieth
  | [] => false

def isNull (cs : List Char) : Bool :=
  ["", "~", "null", "Null", "NULL"].contains (String.ofList cs)

def isBool (cs : List Char) : Bool :=
  ["yes", "Yes", "YES", "no", "No", "NO", "true", "True", "TRUE", "false", "False", "FALSE",
    "on", "On", "ON", "off", "Off", "OFF"].contains (String.ofList cs)

def isInt (cs : List Char) : Bool :=
  match dropSign cs with
  | ['0'] => true
  | '0' :: 'b' :: rest => isRun (fun c => c == '0' || c == '1' || c == '_') rest
  | '0' :: 'x' :: rest => isRun isHexPart rest
  | '0' :: rest => isRun (fun c => ('0' ≤ c && c ≤ '7') || c == '_') rest
  | body =>
    isNumeral body ||
      isSexagesimal (fun first => isNumeral first && first.head? != some '0') body

def isExponent : List Char → Bool
  | [] => true
  | e :: s :: digits => (e == 'e' || e == 'E') && (s == '+' || s == '-') && isRun isDigit digits
  | _ => false

def isFraction (cs : List Char) : Bool :=
  isExponent (cs.dropWhile isDigitPart)

def isFloat (cs : List Char) : Bool :=
  let body := dropSign cs
  let whole := body.takeWhile (· != '.')
  let fraction := body.drop (whole.length + 1)
  let pointed := body.contains '.'
  (pointed && isNumeral whole && isFraction fraction) ||
    (cs.head? == some '.' && fraction.head?.any isDigit && isFraction fraction) ||
    (pointed && fraction.all isDigitPart && isSexagesimal isNumeral whole) ||
    [".inf", ".Inf", ".INF"].contains (String.ofList body) ||
    [".nan", ".NaN", ".NAN"].contains (String.ofList cs)

def afterDigits? (low high : Nat) (cs : List Char) : Option (List Char) :=
  let count := min high (cs.takeWhile isDigit).length
  if low ≤ count then some (cs.drop count) else none

def afterChar? (c : Char) : List Char → Option (List Char)
  | d :: rest => if d = c then some rest else none
  | [] => none

def isSpaceOrTab (c : Char) : Bool :=
  c == ' ' || c == '\t'

def isZone (cs : List Char) : Bool :=
  match cs with
  | [] => true
  | _ =>
    match cs.dropWhile isSpaceOrTab with
    | ['Z'] => true
    | s :: rest =>
      (s == '+' || s == '-') &&
        match afterDigits? 1 2 rest with
        | some [] => true
        | some rest => ((afterChar? ':' rest).bind (afterDigits? 2 2)) == some []
        | none => false
    | [] => false

def isTimeOfDay (cs : List Char) : Bool :=
  let start? : Option (List Char) :=
    match cs with
    | 'T' :: rest => some rest
    | 't' :: rest => some rest
    | c :: rest => if isSpaceOrTab c then some (rest.dropWhile isSpaceOrTab) else none
    | [] => none
  let zone? := do
    let cs ← start?
    let cs ← afterDigits? 1 2 cs
    let cs ← afterChar? ':' cs
    let cs ← afterDigits? 2 2 cs
    let cs ← afterChar? ':' cs
    let cs ← afterDigits? 2 2 cs
    match cs with
    | '.' :: fraction => some (fraction.dropWhile isDigit)
    | cs => some cs
  zone?.any isZone

def isTimestamp (cs : List Char) : Bool :=
  let date := (afterDigits? 4 4 cs).bind (afterChar? '-')
  let full := ((date.bind (afterDigits? 2 2)).bind (afterChar? '-')).bind (afterDigits? 2 2)
  let loose := ((date.bind (afterDigits? 1 2)).bind (afterChar? '-')).bind (afterDigits? 1 2)
  full == some [] || loose.any isTimeOfDay

/-- Whether a reader takes the text for a string when it stands without quotes. -/
def isString (cs : List Char) : Bool :=
  !(isNull cs || isBool cs || isInt cs || isFloat cs || isTimestamp cs ||
    ["=", "<<", "!", "&", "*"].contains (String.ofList cs))

end PipeExpr.Yaml
