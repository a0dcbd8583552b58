import Formula.Cli.Command

/-!
The program on a command line.
-/

def main (args : List String) : IO UInt32 := do
  let outcome := Formula.Cli.run args
  (← IO.getStdout).putStr outcome.output
  (← IO.getStderr).putStr outcome.errors
  return outcome.exitCode.toUInt32
