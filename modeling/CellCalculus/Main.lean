import CellCalculus.CommandLine

open CellCalculus

def main (args : List String) : IO UInt32 := do
  match Options.parse? args with
  | none =>
      IO.eprintln "usage: reflang [PROGRAM] [--fuel <FUEL>] [--no-check] [--verbose]..."
      return usageCode
  | some o =>
      let report := o.execute
      report.stdout.forM IO.println
      report.stderr.forM IO.eprintln
      return report.code
