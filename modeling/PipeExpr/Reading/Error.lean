import PipeExpr.Token.Basic

set_option autoImplicit false

namespace PipeExpr

inductive ReadReason where
  | emptyExpression
  | tooDeep (limit : Nat)
  /-- Deeper than reading can follow, whatever the limit. -/
  | beyondCeiling
  | unexpectedToken (value : Scalar)
  | unexpectedEnd
  | nothingBeforePipe
  | nothingAfterPipe
  | noSegmentAfterDot
  | emptyGroup
  | unclosedGroup (opener : Nat)
  | unterminatedArray
  | noArraySeparator
  | unterminatedObject
  | noObjectSeparator
  | noKey
  | noColon
  | overlongName
  | other (text : String)
deriving DecidableEq

def ReadReason.message? : ReadReason → Option String
  | emptyExpression => some "Empty expression"
  | tooDeep limit =>
    (Text.numeral? limit).map fun limit => "Expression nested deeper than " ++ limit ++ " levels"
  | beyondCeiling => some "Expression nested too deeply"
  | unexpectedToken value => value.text?.map fun text => "Unexpected token '" ++ text ++ "'"
  | unexpectedEnd => some "Unexpected end of expression"
  | nothingBeforePipe => some "Expected expression before '|'"
  | nothingAfterPipe => some "Expected expression after '|'"
  | noSegmentAfterDot => some "Expected identifier after '.'"
  | emptyGroup => some "Empty parenthetical expression"
  | unclosedGroup opener => some ("Expected ')' to close '(' at position " ++ toString opener)
  | unterminatedArray => some "Unterminated array literal"
  | noArraySeparator => some "Expected ',' or ']' after array element"
  | unterminatedObject => some "Unterminated object literal"
  | noObjectSeparator => some "Expected ',' or '\x7d' after object value"
  | noKey => some "Expected string or identifier as object key"
  | noColon => some "Expected ':' after object key"
  | overlongName => none
  | other text => some text

def ReadReason.message (reason : ReadReason) : String :=
  reason.message?.getD Text.tooManyDigits

/-- A reason with its place: `token` is the token that cannot be read, if the input did not end too
    early. -/
structure ReadError where
  reason : ReadReason
  location : Location
  token : Option Token := none
deriving DecidableEq

namespace ReadError

def atToken (reason : ReadReason) (t : Token) : ReadError :=
  ⟨reason, t.start, some t⟩

def atEnd (reason : ReadReason) (location : Location) : ReadError :=
  ⟨reason, location, none⟩

/-- The error at `position`. A token, if there is one, decides about line and column, but not about
    the position. -/
def located (reason : ReadReason) (location : Location) (token : Option Token) : ReadError :=
  match token with
  | some t => ⟨reason, ⟨location.position, t.start.line, t.start.column⟩, some t⟩
  | none => ⟨reason, location, none⟩

/-- The message of an error of reading. If it cannot be written, the failure to write it takes the
    place of the error. -/
def message? (e : ReadError) : Option String :=
  e.reason.message?.map fun reason => reason ++ " at position " ++ toString e.location.position

def message (e : ReadError) : String :=
  e.message?.getD Text.tooManyDigits

end ReadError

end PipeExpr
