import Typeset.CommandLine

/-!
# The program

Reads the arguments, and the standard input if they hold no formula, and prints.
-/

open Typeset

/-- Prints, and gives the exit code. -/
def Typeset.CommandOutput.print (o : CommandOutput) : IO UInt32 := do
  (← IO.getStdout).putStr o.out
  (← IO.getStderr).putStr o.err
  return o.code.toUInt32

def main (arguments : List String) : IO UInt32 := do
  match CommandLine.read arguments with
  | .error e => (CommandLine.refusal e).print
  | .ok c =>
    let markup ← match c.formula with
      | some markup => pure markup
      | none => do (← IO.getStdin).readToEnd
    (c.run markup).print
