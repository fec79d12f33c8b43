import PipeExpr.Text.Likeness
import PipeExpr.Text.Quoted

set_option autoImplicit false

namespace PipeExpr.CommandLine

structure OptionSpec where
  long : String
  short : Option Char := none
  takesValue : Bool := false
deriving DecidableEq

inductive OptionError where
  | unknown (name : String) (similar : List String)
  | needsValue (name : String)
  | takesNoValue (name : String)
deriving DecidableEq

def OptionError.message : OptionError → String
  | unknown name [] => "No such option: " ++ name
  | unknown name [similar] => "No such option: " ++ name ++ " Did you mean " ++ similar ++ "?"
  | unknown name similar =>
    "No such option: " ++ name ++ " (Possible options: " ++
      ", ".intercalate (similar.mergeSort (· ≤ ·)) ++ ")"
  | needsValue name => "Option " ++ Text.quoted name ++ " requires an argument."
  | takesNoValue name => "Option " ++ Text.quoted name ++ " does not take a value."

structure Setting where
  name : String
  value : String := ""
deriving DecidableEq

/-- What one argument says: settings, and the option that waits for the next argument. -/
structure Given where
  settings : List Setting
  waiting : Option String := none

def splitValue (arg : String) : String × Option String :=
  let cs := arg.toList
  let name := cs.takeWhile (· ≠ '=')
  if name.length < cs.length then
    (String.ofList name, some (String.ofList (cs.drop (name.length + 1))))
  else (arg, none)

def readLetters (specs : List OptionSpec) (settings : List Setting) :
    List Char → Except OptionError Given
  | [] => .ok ⟨settings, none⟩
  | c :: rest =>
    match specs.find? (·.short == some c) with
    | none => .error (.unknown (String.ofList ['-', c]) [])
    | some spec =>
      if spec.takesValue then
        if rest.isEmpty then .ok ⟨settings, some spec.long⟩
        else .ok ⟨settings ++ [⟨spec.long, String.ofList rest⟩], none⟩
      else readLetters specs (settings ++ [⟨spec.long, ""⟩]) rest

def readOption (specs : List OptionSpec) (arg : String) : Except OptionError Given :=
  let (name, value?) := splitValue arg
  match specs.find? (·.long == name), value? with
  | some spec, some value =>
    if spec.takesValue then .ok ⟨[⟨spec.long, value⟩], none⟩ else .error (.takesNoValue spec.long)
  | some spec, none =>
    if spec.takesValue then .ok ⟨[], some spec.long⟩ else .ok ⟨[⟨spec.long, ""⟩], none⟩
  | none, _ =>
    if arg.startsWith "--" then
      .error (.unknown name ((specs.map (·.long)).filter (Text.isLike · name)))
    else readLetters specs [] (arg.toList.drop 1)

/-- The options and operands among the arguments. Unless they may be mixed, the first operand ends
    the options. -/
def splitArguments (specs : List OptionSpec) (mixed : Bool) :
    List String → Except OptionError (List Setting × List String)
  | [] => .ok ([], [])
  | arg :: rest =>
    if arg = "--" then .ok ([], rest)
    else if arg.startsWith "-" && arg.length > 1 then
      match readOption specs arg with
      | .error e => .error e
      | .ok ⟨settings, none⟩ =>
        (splitArguments specs mixed rest).map fun (more, operands) => (settings ++ more, operands)
      | .ok ⟨settings, some name⟩ =>
        match rest with
        | [] => .error (.needsValue name)
        | value :: rest =>
          (splitArguments specs mixed rest).map fun (more, operands) =>
            (settings ++ ⟨name, value⟩ :: more, operands)
    else if mixed then
      (splitArguments specs mixed rest).map fun (more, operands) => (more, arg :: operands)
    else .ok ([], arg :: rest)

def lastValue? (settings : List Setting) (name : String) : Option String :=
  (settings.reverse.find? (·.name == name)).map (·.value)

end PipeExpr.CommandLine
