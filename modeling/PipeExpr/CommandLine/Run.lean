import PipeExpr.CommandLine.Usage
import PipeExpr.Data.Json
import PipeExpr.Data.Yaml
import PipeExpr.Expr.Source
import PipeExpr.Reading.Run
import PipeExpr.Text.Stream

set_option autoImplicit false

namespace PipeExpr.CommandLine

/-- How a run ends. A crash is a failure that the program has no message of its own for. -/
structure Outcome where
  exitCode : Nat := 0
  out : String := ""
  err : String := ""
  crash : Option WriteError := none

/-- The operands as source texts. A dash alone stands for the standard input without the white space
    around it; once read, there is nothing left of it. -/
def sources (stdin : String) : List String → List String
  | [] => []
  | "-" :: rest => Text.trim (Text.received stdin) :: sources "" rest
  | source :: rest => source :: sources stdin rest

def scannedLine (source : String) (tokens : List Token) : String :=
  "DEBUG:pipeql.expressions.lexer:Lexed " ++ toString tokens.length ++ " token(s) from " ++
    toString source.length ++ " character(s)\n"

def refusedLine (source : String) (e : SourceError) : String :=
  "DEBUG:pipeql.expressions.parser:Failed to parse " ++ Text.quoted source ++ ": " ++ e.message ++
    "\n"

def scanLog (isVerbose : Bool) (source : String) : String :=
  match scan source with
  | .ok tokens => if isVerbose then scannedLine source tokens else ""
  | .error _ => ""

def failed (log message : String) : Outcome :=
  { exitCode := 1, err := log ++ "Error: " ++ message ++ "\n" }

def padLeft (width : Nat) (s : String) : String :=
  String.ofList (List.replicate (width - s.length) ' ') ++ s

def padRight (width : Nat) (s : String) : String :=
  s ++ String.ofList (List.replicate (width - s.length) ' ')

def tokenLine (t : Token) : String :=
  padLeft 4 (toString t.start.position) ++ "  " ++ padRight 9 t.kind.name ++ "  " ++
    t.value.quoted ++ "\n"

def runTokens (isVerbose : Bool) (source : String) : Outcome :=
  let log := scanLog isVerbose source
  match scan source with
  | .error e => failed log e.message
  | .ok tokens => { out := String.join (tokens.map tokenLine), err := log }

def runOn (limits ceiling : Limits) (isVerbose : Bool) (source : String)
    (print : Expr → Except WriteError String) : Outcome :=
  let log := scanLog isVerbose source
  match readSourceBelowCeiling limits source ceiling with
  | .error e => failed log e.message
  | .ok expression =>
    match print expression with
    | .ok out => { out := out, err := log }
    | .error e => { exitCode := 1, err := log, crash := some e }

def printTree (format : Format) (e : Expr) : Except WriteError String :=
  match e.toData with
  | .error e => .error (.foreign e.value)
  | .ok data =>
    match format with
    | .json => .ok (data.json 0 ++ "\n")
    | .yaml => .ok data.yaml

def printSource (e : Expr) : Except WriteError String :=
  e.source.map (· ++ "\n")

def checkOne (limits ceiling : Limits) (isVerbose : Bool) (source : String) :
    String × String × Bool :=
  let log := scanLog isVerbose source
  match readSourceBelowCeiling limits source ceiling with
  | .ok _ => ("  ✓ " ++ source ++ "\n", log, true)
  | .error e =>
    ("  ✗ " ++ source ++ ": " ++ e.message ++ "\n",
      log ++ (if isVerbose then refusedLine source e else ""), false)

def runCheck (limits ceiling : Limits) (isVerbose : Bool) (sources : List String) : Outcome :=
  let verdicts := sources.map (checkOne limits ceiling isVerbose)
  let out := String.join (verdicts.map (·.1))
  let log := String.join (verdicts.map (·.2.1))
  let failures := (verdicts.filter (!·.2.2)).length
  if failures = 0 then
    { out := out ++ "\nAll " ++ toString sources.length ++ " expression(s) parse.\n", err := log }
  else
    { exitCode := 1
      out := out ++ "\n" ++ toString failures ++ " expression(s) failed to parse\n"
      err := log }

def runCall (limits ceiling : Limits) (isVerbose : Bool) (stdin : String) (call : Call) :
    Outcome :=
  let texts := sources stdin call.operands
  let first := texts.headD ""
  match call.command with
  | .tokens => runTokens isVerbose first
  | .parse => runOn limits ceiling isVerbose first (printTree call.format)
  | .format => runOn limits ceiling isVerbose first printSource
  | .check => runCheck limits ceiling isVerbose texts

def misused (scope : Option Command) (fault : Fault) : Outcome :=
  { exitCode := 2, err := fault.report scope }

def limitsInForce (setup : Setup) (setting : Option String) : Except Fault Limits :=
  match setup.depth with
  | some limits => .ok limits
  | none => (Limits.ofEnvironment? setting).mapError .limits

/-- A run before its output goes out. The command is looked up before the limits are, and the limits
    before the command's own arguments. -/
def runRaw (args : List String) (stdin : String) (setting : Option String) (ceiling : Limits) :
    Outcome :=
  if args.isEmpty then { exitCode := 2, err := usageLine none }
  else
    match readSetup args with
    | .error fault => misused none fault
    | .ok setup =>
      if setup.help then { out := usageLine none }
      else
        match readCommand setup.rest with
        | .error fault => misused none fault
        | .ok (command, rest) =>
          match limitsInForce setup setting with
          | .error fault => misused none fault
          | .ok limits =>
            match readCall command rest with
            | .error fault => misused (some command) fault
            | .ok none => { out := usageLine (some command) }
            | .ok (some call) => runCall limits ceiling setup.isVerbose stdin call

def run (args : List String) (stdin : String) (setting : Option String)
    (ceiling : Limits := usualCeiling) : Outcome :=
  let outcome := runRaw args stdin setting ceiling
  { outcome with out := Text.shown outcome.out, err := Text.shown outcome.err }

end PipeExpr.CommandLine
