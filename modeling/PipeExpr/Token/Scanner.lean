import PipeExpr.Text.Blank
import PipeExpr.Token.Lexeme

/-!
# Scanning

A scanner is what is left of a source together with the location reached. Each step skips white
space and delivers a token, a failure or the end. A numeral out of range is left behind when it is
reported; a character that starts no token is not, so it is reported again and again.
-/

set_option autoImplicit false

namespace PipeExpr

inductive ScanReason where
  | unexpectedCharacter
  | outOfRange
  | other (text : String)
deriving DecidableEq

/-- A place where no token can be read: `character` is the first of the text in question. -/
structure ScanError where
  character : String
  location : Location
  reason : ScanReason := .unexpectedCharacter
deriving DecidableEq

namespace ScanError

def reasonText (e : ScanError) : String :=
  match e.reason with
  | .unexpectedCharacter => "Unexpected character '" ++ e.character ++ "'"
  | .outOfRange => "Numeric literal out of range"
  | .other text => text

def message (e : ScanError) : String :=
  e.reasonText ++ " at line " ++ toString e.location.line ++ ", column " ++
    toString e.location.column

end ScanError

inductive ScanEvent where
  | token (t : Token)
  | failure (e : ScanError)
  | finish
deriving DecidableEq

structure Scanner where
  rest : List Char
  location : Location := .start
deriving DecidableEq

namespace Scanner

def ofSource (source : String) : Scanner :=
  ⟨source.toList, .start⟩

def skip (s : Scanner) (count : Nat) : Scanner :=
  ⟨s.rest.drop count, s.location.advance (s.rest.take count)⟩

def skipBlanks (s : Scanner) : Scanner :=
  s.skip (s.rest.takeWhile Text.isBlank).length

def eventHere (s : Scanner) : ScanEvent × Scanner :=
  match s.rest with
  | [] => (.finish, s)
  | c :: _ =>
    match Pattern.first? s.rest with
    | none => (.failure ⟨c.toString, s.location, .unexpectedCharacter⟩, s)
    | some (pattern, count) =>
      let text := s.rest.take count
      match pattern.read? text with
      | some (kind, value) =>
        (.token ⟨kind, value, s.location, String.ofList text⟩, s.skip count)
      | none => (.failure ⟨c.toString, s.location, .outOfRange⟩, s.skip count)

def next (s : Scanner) : ScanEvent × Scanner :=
  s.skipBlanks.eventHere

/-- All tokens up to the end, `seen` being the ones before, the latest first. The first failure
    takes the place of the tokens. Each token takes a character at least, so as many steps as there
    are characters, and one for the end, are enough. -/
def drainFrom : Nat → List Token → Scanner → Except ScanError (List Token) × Scanner
  | 0, seen, s => (.ok seen.reverse, s)
  | steps + 1, seen, s =>
    match s.next with
    | (.token t, s) => drainFrom steps (t :: seen) s
    | (.failure e, s) => (.error e, s)
    | (.finish, s) => (.ok seen.reverse, s)

def drain (s : Scanner) : Except ScanError (List Token) × Scanner :=
  s.drainFrom (s.rest.length + 1) []

end Scanner

def scan (source : String) : Except ScanError (List Token) :=
  (Scanner.ofSource source).drain.1

end PipeExpr
