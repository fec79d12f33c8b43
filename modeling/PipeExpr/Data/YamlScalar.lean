import PipeExpr.Data.YamlPlain
import PipeExpr.Text.Quoted

/-!
# Texts as scalars of YAML

A text stands without quotes if it reads back as itself, else between apostrophes, and between
double quotes if it holds characters that need escapes. A line that is full is broken where a reader
puts the text together again: at a space between two other characters or, between double quotes,
behind a backslash.
-/

set_option autoImplicit false

namespace PipeExpr.Yaml

def isGap (c : Option Char) : Bool :=
  match c with
  | none => true
  | some c => [' ', '\t', '\r', '\n', '\x00', '\u0085', '\u2028', '\u2029'].contains c

def isBreak (c : Char) : Bool :=
  ['\n', '\u0085', '\u2028', '\u2029'].contains c

def isSpecial (c : Char) : Bool :=
  !(c == '\n' || (0x20 ≤ c.toNat && c.toNat ≤ 0x7e))

/-- Whether a colon or a number sign in the text would end it. -/
def hasInnerIndicator : List Char → Bool
  | a :: b :: rest =>
    (b == ':' && isGap rest.head?) || (b == '#' && isGap (some a)) ||
      hasInnerIndicator (b :: rest)
  | _ => false

def hasLeadingIndicator (cs : List Char) : Bool :=
  match cs with
  | [] => false
  | c :: rest =>
    ['#', ',', '[', ']', '{', '}', '&', '*', '!', '|', '>', '\x27', '"', '%', '@',
        '\x60'].contains c ||
      (['?', ':', '-'].contains c && isGap rest.head?) ||
      ['-', '-', '-'].isPrefixOf cs || ['.', '.', '.'].isPrefixOf cs

def hasOuterSpace (cs : List Char) : Bool :=
  cs.head?.any (fun c => c == ' ' || isBreak c) || cs.getLast?.any (fun c => c == ' ' || isBreak c)

def hasPair (a b : Char → Bool) (cs : List Char) : Bool :=
  (cs.zip (cs.drop 1)).any fun (c, d) => a c && b d

def isPlain (cs : List Char) : Bool :=
  isString cs && !hasLeadingIndicator cs && !hasInnerIndicator cs && !hasOuterSpace cs &&
    !cs.any isSpecial && !cs.any isBreak

def isQuotable (cs : List Char) : Bool :=
  !cs.any isSpecial && !hasPair isBreak (· == ' ') cs && !hasPair (· == ' ') isBreak cs

/-- The columns that are taken before the first line of a value and before its other lines. A line
    is full when it takes more columns than `width`; without a width no line ever is. -/
structure Margin where
  first : Nat
  others : Nat
  width : Option Nat := some 80

namespace Margin

def block (column : Nat) : Margin :=
  { first := column, others := column }

def oneLine : Margin :=
  { first := 0, others := 0, width := none }

def isFull (m : Margin) (taken : Nat) : Bool :=
  m.width.any (· < taken)

end Margin

/-- The lines of a text. Each line feed ends a line, and a run of them leaves one empty line more
    behind; on a full line so does a space between two other characters. `taken` counts the columns
    before what is still to come, and `line` is what stands on their line, the latest first. -/
def foldLines (m : Margin) (taken : Nat) (line : List Char) : List Char → List (List Char)
  | [] => [line.reverse]
  | c :: rest =>
    if c = '\n' then
      let more := foldLines m m.others [] rest
      line.reverse :: if rest.head? = some '\n' then more else [] :: more
    else if c = ' ' ∧ m.isFull taken ∧ line.head?.any (· ≠ ' ') ∧ rest.head?.any (· ≠ ' ') then
      line.reverse :: foldLines m m.others [] rest
    else foldLines m (taken + 1) (c :: line) rest

def enclose (mark : Char) (lines : List (List Char)) : List (List Char) :=
  match lines.reverse with
  | [] => [[mark, mark]]
  | last :: before =>
    match before.reverse ++ [last ++ [mark]] with
    | [] => []
    | first :: others => (mark :: first) :: others

def singleQuoted (m : Margin) (cs : List Char) : List (List Char) :=
  enclose '\x27'
    (foldLines m (m.first + 1) [] (cs.flatMap fun c => if c = '\x27' then [c, c] else [c]))

def escaped (c : Char) : List Char :=
  let n := c.toNat
  let short : List (Nat × Char) :=
    [(0x00, '0'), (0x07, 'a'), (0x08, 'b'), (0x09, 't'), (0x0a, 'n'), (0x0b, 'v'), (0x0c, 'f'),
      (0x0d, 'r'), (0x1b, 'e'), (0x22, '"'), (0x5c, '\\'), (0x85, 'N'), (0xa0, '_'),
      (0x2028, 'L'), (0x2029, 'P')]
  match short.find? (·.1 == n) with
  | some (_, letter) => ['\\', letter]
  | none =>
    if 0x20 ≤ n ∧ n ≤ 0x7e then [c]
    else if n ≤ 0xff then '\\' :: 'x' :: (Text.hex 2 n).map Char.toUpper
    else if n ≤ 0xffff then '\\' :: 'u' :: (Text.hex 4 n).map Char.toUpper
    else '\\' :: 'U' :: (Text.hex 8 n).map Char.toUpper

/-- The lines of a text in which characters are escaped. A full line ends with a backslash, before a
    space or on either side of an escape, but never before the last character; a space at the head
    of the next line has a backslash of its own. `behindEscape` tells whether the latest character
    on `line` is an escape. -/
def foldEscaped (m : Margin) (taken : Nat) (line : List Char) (behindEscape : Bool) :
    List Char → List (List Char)
  | [] => [line.reverse]
  | c :: rest =>
    let text := escaped c
    if text = [c] then
      if !rest.isEmpty && (c == ' ' || behindEscape) && m.isFull taken then
        let head := if c = ' ' then ['\\', ' '] else [c]
        ('\\' :: line).reverse ::
          foldEscaped m (m.others + head.length) head.reverse false rest
      else foldEscaped m (taken + 1) (c :: line) false rest
    else if !rest.isEmpty && m.isFull (taken + text.length - 1) then
      let head := if rest.head? = some ' ' then ['\\'] else []
      ('\\' :: (text.reverse ++ line)).reverse ::
        foldEscaped m (m.others + head.length) head true rest
    else foldEscaped m (taken + text.length) (text.reverse ++ line) true rest

def doubleQuoted (m : Margin) (cs : List Char) : List (List Char) :=
  match cs with
  | [] => enclose '"' [[]]
  | c :: rest =>
    let text := escaped c
    enclose '"' (foldEscaped m (m.first + 1 + text.length) text.reverse (text ≠ [c]) rest)

def textLines (m : Margin) (s : String) : List String :=
  let cs := s.toList
  let lines :=
    if isPlain cs then foldLines m m.first [] cs
    else if isQuotable cs then singleQuoted m cs
    else doubleQuoted m cs
  lines.map String.ofList

end PipeExpr.Yaml
