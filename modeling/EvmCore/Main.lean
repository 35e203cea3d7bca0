import EvmCore.CommandLine

/-!
# The program

Carries out the command on its command line.
-/

/-- Prints the report on the command and tells its exit code. -/
def main (args : List String) : IO UInt32 := do
  match EvmCore.CommandLine.report args with
  | .usageError =>
    IO.eprintln <|
      "usage: run CODE [--gas N] [--value N] [--calldata HEX] [--trace] [--json] [--verbose]"
    IO.eprintln "       disasm CODE"
    return 2
  | .finished output errors =>
    IO.eprint errors
    IO.print output
    return 0
  | .failed fault errors =>
    IO.eprint errors
    IO.eprintln fault.message
    return 1
