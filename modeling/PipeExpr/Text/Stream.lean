set_option autoImplicit false

namespace PipeExpr.Text

/-- The text with every end of line, however it is written, as a line feed, behind what is known of
    the text before, the latest first. -/
def unifyLineEnds (known : List Char) : List Char → List Char
  | [] => known.reverse
  | c :: rest =>
    if c = '\r' ∧ rest.head? = some '\n' then unifyLineEnds known rest
    else if c = '\r' then unifyLineEnds ('\n' :: known) rest
    else unifyLineEnds (c :: known) rest

def received (s : String) : String :=
  String.ofList (unifyLineEnds [] s.toList)

def isCodeParameter (c : Char) : Bool :=
  c.isDigit || c == ';' || c == '?'

def codeLength? : List Char → Option Nat
  | '\x1b' :: '[' :: rest =>
    let parameters := (rest.takeWhile isCodeParameter).length
    if (rest.drop parameters).head?.any Char.isAlpha then some (parameters + 3) else none
  | _ => none

/-- The text without escape codes, behind what is kept of the text before, the latest first. After a
    code `skipped` characters of it are still to come. -/
def dropCodes (kept : List Char) : Nat → List Char → List Char
  | _, [] => kept.reverse
  | skipped + 1, _ :: rest => dropCodes kept skipped rest
  | 0, c :: rest =>
    match codeLength? (c :: rest) with
    | some length => dropCodes kept (length - 1) rest
    | none => dropCodes (c :: kept) 0 rest

def dropReturns (kept : List Char) : List Char → List Char
  | [] => kept.reverse
  | c :: rest =>
    if c = '\r' ∧ rest.head? = some '\n' then dropReturns kept rest
    else dropReturns (c :: kept) rest

def shown (s : String) : String :=
  String.ofList (dropReturns [] (dropCodes [] 0 s.toList))

example : dropCodes [] 0 "a\x1b[1;31mb\x1b[c\x1b".toList = "ab\x1b".toList := by
  decide +kernel

end PipeExpr.Text
