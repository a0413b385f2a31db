import RowFilter.Command.Run

open RowFilter

def main (arguments : List String) : IO UInt32 := do
  let reads := (Arguments.read? arguments).any Command.readsInput
  let stdin ← if reads then (← IO.getStdin).readToEnd else pure ""
  let outcome := runArguments arguments stdin
  IO.print outcome.stdout
  IO.eprint outcome.stderr
  return outcome.code.toUInt32
