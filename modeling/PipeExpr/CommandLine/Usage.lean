import PipeExpr.CommandLine.Options
import PipeExpr.Limits

set_option autoImplicit false

namespace PipeExpr.CommandLine

inductive Command where
  | tokens
  | parse
  | check
  | format
deriving DecidableEq

namespace Command

def name : Command → String
  | tokens => "tokens"
  | parse => "parse"
  | check => "check"
  | format => "format"

def all : List Command :=
  [tokens, parse, check, format]

def ofName? (name : String) : Option Command :=
  all.find? (·.name == name)

def operandName : Command → String
  | check => "EXPRESSIONS..."
  | _ => "EXPRESSION"

def formatOption : OptionSpec := { long := "--format", takesValue := true }

def helpOption : OptionSpec := { long := "--help" }

def options : Command → List OptionSpec
  | parse => [formatOption, helpOption]
  | _ => [helpOption]

end Command

def depthOption : OptionSpec := { long := "--max-depth", takesValue := true }

def verboseOption : OptionSpec := { long := "--verbose", short := some 'v' }

def programOptions : List OptionSpec :=
  [depthOption, verboseOption, Command.helpOption]

def programName : String := "pipeql"

def synopsis : Option Command → String
  | none => programName ++ " [OPTIONS] COMMAND [ARGS]..."
  | some c => programName ++ " " ++ c.name ++ " [OPTIONS] " ++ c.operandName

def invocation : Option Command → String
  | none => programName
  | some c => programName ++ " " ++ c.name

inductive Fault where
  | option (e : OptionError)
  | missingCommand
  | unknownCommand (name : String)
  | missingOperand (name : String)
  | extraOperands (operands : List String)
  | unknownFormat (value : String)
  | depthNotInteger (value : String)
  | depthBelowOne (depth : Int)
  | limits (e : LimitError)
deriving DecidableEq

def invalidValue (option : OptionSpec) (reason : String) : String :=
  "Invalid value for '" ++ option.long ++ "': " ++ reason

def Fault.message : Fault → String
  | option e => e.message
  | missingCommand => "Missing command."
  | unknownCommand name => "No such command " ++ Text.quoted name ++ "."
  | missingOperand name => "Missing argument '" ++ name ++ "'."
  | extraOperands operands =>
    "Got unexpected extra argument" ++ (if operands.length = 1 then "" else "s") ++ " (" ++
      " ".intercalate operands ++ ")"
  | unknownFormat value =>
    invalidValue Command.formatOption (Text.quoted value ++ " is not one of 'json', 'yaml'.")
  | depthNotInteger value =>
    invalidValue depthOption (Text.quoted value ++ " is not a valid integer range.")
  | depthBelowOne depth =>
    invalidValue depthOption (toString depth ++ " is not in the range x>=1.")
  | limits e => e.message

def Fault.isBare : Fault → Bool
  | option (.needsValue _) => true
  | option (.takesNoValue _) => true
  | _ => false

def usageLine (scope : Option Command) : String :=
  "Usage: " ++ synopsis scope ++ "\n"

def Fault.report (scope : Option Command) (fault : Fault) : String :=
  (if fault.isBare then ""
    else usageLine scope ++ "Try '" ++ invocation scope ++ " --help' for help.\n\n") ++
    "Error: " ++ fault.message ++ "\n"

inductive Format where
  | json
  | yaml
deriving DecidableEq

structure Call where
  command : Command
  operands : List String
  format : Format := .json

def readCall (command : Command) (args : List String) : Except Fault (Option Call) := do
  let (settings, operands) ← (splitArguments command.options true args).mapError .option
  if settings.any (·.name == Command.helpOption.long) then return none
  let format ← match lastValue? settings Command.formatOption.long with
    | none | some "json" => pure Format.json
    | some "yaml" => pure Format.yaml
    | some value => throw (.unknownFormat value)
  match command, operands with
  | _, [] => throw (.missingOperand command.operandName)
  | .check, operands => return some ⟨command, operands, format⟩
  | _, [operand] => return some ⟨command, [operand], format⟩
  | _, _ :: extra => throw (.extraOperands extra)

structure Setup where
  depth : Option Limits
  isVerbose : Bool
  help : Bool
  rest : List String

def readDepth (value : String) : Except Fault Limits :=
  match Text.integer? value with
  | none => .error (.depthNotInteger value)
  | some depth => (Limits.ofDepth? depth).mapError fun _ => .depthBelowOne depth

def readSetup (args : List String) : Except Fault Setup := do
  let (settings, rest) ← (splitArguments programOptions false args).mapError .option
  let isVerbose := settings.any (·.name == verboseOption.long)
  if settings.any (·.name == Command.helpOption.long) then return ⟨none, isVerbose, true, rest⟩
  match lastValue? settings depthOption.long with
  | none => return ⟨none, isVerbose, false, rest⟩
  | some value => return ⟨some (← readDepth value), isVerbose, false, rest⟩

/-- The command at the head of what follows the options. If it is none, the arguments are read as
    options once more, and what is wrong with them goes first. -/
def readCommand (args : List String) : Except Fault (Command × List String) :=
  match args with
  | [] => .error .missingCommand
  | name :: rest =>
    match Command.ofName? name with
    | some command => .ok (command, rest)
    | none =>
      match readSetup args with
      | .error fault => .error fault
      | .ok _ => .error (.unknownCommand name)

end PipeExpr.CommandLine
