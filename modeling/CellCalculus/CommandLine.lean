import CellCalculus.CommandOptions
import CellCalculus.ExecutionTrace
import CellCalculus.PremiseSettling

/-!
# The command line

Runs a sample program: its type first, unless that is not wanted, then the run, with the events that
the verbosity lets through in between.
-/

namespace CellCalculus

/-- What a run of the command leaves: its exit code and the lines on both outputs. -/
structure Report where
  code : UInt32
  stdout : List String := []
  stderr : List String := []
  deriving DecidableEq

def Level.ofVerbosity : Nat → Level
  | 0 => .warn
  | 1 => .info
  | 2 => .debug
  | _ => .trace

def typingLine : Except TypeError Ty → String
  | .ok t => "type: " ++ t.text
  | .error err => "ill-typed, running anyway: " ++ err.message

namespace Options

def level (o : Options) : Level := .ofVerbosity o.verbosity

/-- An ill-typed program is reported and runs all the same. -/
def typingLines (o : Options) (e : Expr) : List String :=
  if o.noCheck then []
  else
    let outcome := check .empty e {}
    logLines o.level outcome.events ++ [typingLine outcome.answer]

def execute (o : Options) : Report :=
  let program := o.program.getD .countdown
  let m : Machine := { expr := program.expr, fuel := o.fuel }
  let before := logLines o.level [.built program.title] ++ o.typingLines program.expr ++
    logLines o.level m.runEvents
  match m.run with
  | (.ok v, m') => { code := 0, stdout := before ++ [v.text, "steps: " ++ toString m'.steps] }
  | (.error err, _) =>
      { code := 1
        stdout := before
        stderr := ["Error: running " ++ program.title, "", "Caused by:", "    " ++ err.message] }

end Options

/-- The exit code of a malformed command line. -/
def usageCode : UInt32 := 2

end CellCalculus
