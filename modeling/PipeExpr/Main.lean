import PipeExpr.CommandLine.Run

set_option autoImplicit false

open PipeExpr.CommandLine

def main (args : List String) : IO UInt32 := do
  let setting ← IO.getEnv "PIPEQL_MAX_DEPTH"
  let stdin ← if args.contains "-" then (← IO.getStdin).readToEnd else pure ""
  let outcome := run args stdin setting
  IO.print outcome.out
  IO.eprint outcome.err
  match outcome.crash with
  | some e => IO.eprintln e.message
  | none => pure ()
  return UInt32.ofNat outcome.exitCode
